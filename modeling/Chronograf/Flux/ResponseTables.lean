/-
# What is read of Flux responses

A response is cut into its blocks, and a block into annotations and
records, where no value has a line that begins with a number sign or is blank.
The records of a table come together again, in the order of the ids.

Key theorems: `tablesData_records`, `reads_row`, `text_rows`, `parseTables_block`, `chunks_response`, `readBy_of_readable`.
-/
import Chronograf.Flux.Response

namespace Chronograf
namespace FluxResponse

open Chunks

variable {w : Writer} {b : Block} {t : Table}

/-! ### Tables -/

theorem ofDigitChars_repr (n : ℕ) : Nat.ofDigitChars 10 (Nat.repr n).toList 0 = n := by
  rw [Nat.toList_repr, Nat.ofDigitChars_ten_toDigits]

theorem arrayIndex_repr (n : ℕ) : arrayIndex (Nat.repr n) = if n < 4294967295 then some n else none := by
  rw [arrayIndex]
  simp only [ofDigitChars_repr, true_and]

theorem findIdx?_header (b : Block) : (b.header.findIdx? fun h => h = "table") = some 2 := by
  simp [Block.header, List.findIdx?_cons]

/-- The records of all tables fall into those of each table. -/
theorem tablesData_records (b : Block) (hrows : ∀ t ∈ b.tables, t.rows ≠ []) :
    tablesData b.header (b.tables.flatMap Table.records) = b.tables.map Table.records := by
  let groups := b.tables.map fun t => (Nat.repr t.id, t.records)
  have hpairs : (b.tables.flatMap Table.records).map (fun row => (property ((some 2).bind fun i => row[i]?), row)) =
      groups.flatMap fun g => g.2.map (g.1, ·) := by
    rw [List.map_flatMap, List.flatMap_map]
    refine List.flatMap_congr fun t _ => ?_
    rw [Table.records, List.map_map, List.map_map]
    rfl
  have hne : ∀ g ∈ groups, g.2 ≠ [] := fun g hg => by
    obtain ⟨t, ht, rfl⟩ := List.mem_map.mp hg
    exact fun hempty => hrows t ht (List.map_eq_nil_iff.mp hempty)
  have hnodup : (groups.map Prod.fst).Nodup := by
    rw [List.map_map]
    refine List.pairwise_map.mpr (b.ids.imp fun {t t'} hlt heq => hlt.ne ?_)
    have htext : Nat.repr t.id = Nat.repr t'.id := heq
    rw [← ofDigitChars_repr t.id, htext, ofDigitChars_repr]
  have hentries := Props.entries_group hne hnodup
  have hordered : (Props.group (groups.flatMap fun g => g.2.map (g.1, ·))).ordered arrayIndex = groups := by
    refine (Props.ordered_of_increasing (fun e => Nat.ofDigitChars 10 e.1.toList 0) 4294967295 ?_ ?_).trans hentries
    · rw [hentries]
      intro e he
      obtain ⟨t, -, rfl⟩ := List.mem_map.mp he
      simp only [ofDigitChars_repr, arrayIndex_repr]
    · rw [hentries]
      refine List.pairwise_map.mpr (b.ids.imp fun hlt => ?_)
      simpa only [ofDigitChars_repr] using hlt
  rw [tablesData, findIdx?_header, hpairs, Props.values, hordered, List.map_map]
  rfl

/-! ### Group keys -/

def flagText (flag : Bool) : String := if flag then "true" else "false"

/-- The grouped columns, behind as many as there are before. -/
theorem map_indices (f : ℕ → String × String) : ∀ {columns key : List String} {group : List Bool} {s : ℕ}, group.length = columns.length →
    key.length = columns.length → (∀ i, group[i]? = some true → (columns[i]?).isSome → f (s + i) = (columns.getD i "", key.getD i "")) →
    (((group.map flagText).zipIdx s).filterMap fun e => if e.1 = "true" then some e.2 else none).map f =
      ((columns.zip key).zip group).filterMap fun e => if e.2 then some e.1 else none
  | [], [], [], _, _, _, _ => rfl
  | column :: columns, k :: key, flag :: group, s, hgroup, hkey, hf => by
    have hrest := map_indices f (s := s + 1) (Nat.succ_inj.mp hgroup) (Nat.succ_inj.mp hkey) fun i hi hcolumn => by
      have := hf (i + 1) hi hcolumn
      rwa [Nat.add_assoc, Nat.add_comm 1 i]
    cases flag with
    | true => exact congrArg₂ List.cons (hf 0 rfl rfl) hrest
    | false => exact hrest
  | [], _ :: _, _, _, _, hkey, _ => absurd hkey (Nat.succ_ne_zero _)
  | [], [], _ :: _, _, hgroup, _, _ => absurd hgroup (Nat.succ_ne_zero _)
  | _ :: _, [], _, _, _, hkey, _ => absurd hkey (Nat.succ_ne_zero _).symm
  | _ :: _, _ :: _, [], _, hgroup, _, _ => absurd hgroup (Nat.succ_ne_zero _).symm

/-- The object of the key is made from the first row. -/
theorem groupKeyOf_row (ht : t ∈ b.tables) {row : List String} (hrow : row ∈ t.rows) :
    groupKeyOf b.header (groupKeyIndices ("#group" :: "false" :: "false" :: b.group.map flagText)) (some (t.cells row)) =
      Props.ofList (((b.columns.zip t.key).zip b.group).filterMap fun e => if e.2 then some e.1 else none) := by
  have hcolumn : ∀ i, b.group[i]? = some true → (b.columns[i]?).isSome →
      (property b.header[3 + i]?, ((t.cells row)[3 + i]?).getD "") = (b.columns.getD i "", t.key.getD i "") := by
    intro i hi hsome
    obtain ⟨column, hcolumn⟩ := Option.isSome_iff_exists.mp hsome
    have hlabel : b.header[3 + i]? = some column := by
      rw [Nat.add_comm]
      exact hcolumn
    have hcell : (t.cells row)[3 + i]? = t.key[i]? := by
      rw [Nat.add_comm]
      exact b.keyed t ht row hrow i hi
    rw [hlabel, hcell, List.getD_eq_getElem?_getD, List.getD_eq_getElem?_getD, hcolumn]
    rfl
  rw [groupKeyOf, Props.ofList, ← map_indices (fun i => (property b.header[i]?, ((t.cells row)[i]?).getD "")) (s := 3) b.length_group (b.length_key t ht) hcolumn, List.foldl_map]
  rfl

/-! ### Rows as they are written -/

theorem read_quote (p : Place) : read p '"' = some .within := by
  cases p <;> rfl

theorem reads_escape (p : Place) (f : List Char) : reads p (Csv.escape f) = reads p f := by
  induction f generalizing p with
  | nil => rfl
  | cons c f ih =>
    rw [Csv.escape, List.flatMap_cons, reads_append]
    split_ifs with hc
    · rw [hc, reads_cons, reads_cons, read_quote]
      exact ih .within
    · rw [reads_cons, reads_cons]
      cases read p c with
      | none => rfl
      | some q => exact ih q

/-- A field in quotes is read as what is in them. -/
theorem reads_quoted (p : Place) (f : List Char) :
    reads p ('"' :: Csv.escape f ++ ['"']) = (reads .within f).map fun _ => .within := by
  rw [List.cons_append, reads_cons, read_quote, Option.bind_some, reads_append, reads_escape]
  cases reads .within f with
  | none => rfl
  | some q =>
    rw [Option.bind_some, reads_cons, read_quote]
    rfl

theorem notMem_of_not_special {f : List Char} (h : ∀ c ∈ f, ¬Csv.special c) : '\n' ∉ f := fun hmem => h _ hmem (by decide)

theorem reads_field (w : Writer) {f : String} (h : Calm f.toList) : reads .within (',' :: w.field f) = some .within := by
  show reads .within (w.field f) = some .within
  rw [Writer.field]
  cases hq : w.quoted f with
  | true =>
    obtain ⟨q, hq⟩ := Option.isSome_iff_exists.mp ((calm_iff _).mp h)
    rw [if_pos rfl, reads_quoted, hq]
    rfl
  | false =>
    rw [if_neg Bool.false_ne_true]
    exact reads_within (notMem_of_not_special (w.plain f hq).1)

theorem reads_fields (w : Writer) {cells : List String} (h : ∀ f ∈ cells, Calm f.toList) :
    reads .within (cells.flatMap fun f => ',' :: w.field f) = some .within := by
  induction cells with
  | nil => rfl
  | cons f cells ih =>
    rw [List.flatMap_cons, reads_append, reads_field w (h f List.mem_cons_self)]
    exact ih fun g hg => h g (List.mem_cons_of_mem _ hg)

theorem reads_row (w : Writer) {first : String} {cells : List String} (hfirst : '\n' ∉ first.toList) (h : ∀ f ∈ cells, Calm f.toList) :
    reads .within (w.row (first :: cells)) = some .within := by
  rw [Writer.row, List.headD_cons, List.drop_one, List.tail_cons, reads_append, reads_within hfirst]
  exact reads_fields w h

/-- The end of a row is no white space. -/
theorem row_ends (w : Writer) (first : String) {cells : List String} (h : cells ≠ []) :
    ∃ init c, w.row (first :: cells) = init ++ [c] ∧ ¬isSpace c := by
  obtain ⟨init, last, rfl⟩ := List.eq_nil_or_concat cells |>.resolve_left h
  have hrow : w.row (first :: init.concat last) = first.toList ++ (init.flatMap fun f => ',' :: w.field f) ++ (',' :: w.field last) := by
    rw [Writer.row, List.headD_cons, List.drop_one, List.tail_cons, List.concat_eq_append, List.flatMap_append, List.append_assoc]
    simp
  have hfield : ∃ before c, ',' :: w.field last = before ++ [c] ∧ ¬isSpace c := by
    rw [Writer.field]
    cases hq : w.quoted last with
    | true => exact ⟨',' :: '"' :: Csv.escape last.toList, '"', rfl, by decide⟩
    | false =>
      rw [if_neg Bool.false_ne_true]
      rcases List.eq_nil_or_concat last.toList with hempty | ⟨before, c, hlast⟩
      · exact ⟨[], ',', by rw [hempty]; rfl, by decide⟩
      · rw [List.concat_eq_append] at hlast
        refine ⟨',' :: before, c, by rw [hlast]; rfl, (w.plain last hq).2 c ?_⟩
        rw [hlast, List.getLast?_concat]
  obtain ⟨before, c, hc, hspace⟩ := hfield
  exact ⟨first.toList ++ (init.flatMap fun f => ',' :: w.field f) ++ before, c, by rw [hrow, hc, List.append_assoc _ before], hspace⟩

/-- Of a text that begins with something, no line is blank, and none but the first begins with a number sign. -/
theorem lines_of_reads {t : List Char} {c : Char} (h : reads .within t = some .within) (hc : t.head? = some c) (hspace : ¬isSpace c) :
    ∃ l ls, lines t = l :: ls ∧ l.head? = some c ∧ ¬isBlank l ∧ ∀ x ∈ ls, x.head? ≠ some '#' ∧ ¬isBlank x := by
  obtain ⟨l, ls, hls⟩ := List.exists_cons_of_ne_nil (lines_ne_nil t)
  have hbreaks : ∀ x ∈ l :: ls, '\n' ∉ x := fun x hx => notMem_of_mem_splitOn (hls ▸ hx)
  have hread := (reads_joinLines (hbreaks l List.mem_cons_self) fun x hx => hbreaks x (List.mem_cons_of_mem _ hx)).2
  rw [← hls, joinLines_lines] at hread
  have hhead : l.head? = some c := by
    have ht : joinLines (l :: ls) = t := hls ▸ joinLines_lines t
    cases l with
    | cons d l =>
      rw [← ht] at hc
      cases ls <;> exact hc
    | nil =>
      rw [← ht] at hc
      cases ls with
      | nil => exact absurd hc nofun
      | cons next more =>
        rw [joinLines_cons _ (List.cons_ne_nil _ _)] at hc
        exact absurd (Option.some_inj.mp hc ▸ by decide) hspace
  refine ⟨l, ls, hls, hhead, fun hblank => ?_, hread.mp h⟩
  exact hspace (List.all_eq_true.mp hblank c (List.mem_of_mem_head? hhead))

/-! ### Blocks as they are written -/

def Writer.cr (w : Writer) : List Char := if w.crlf then ['\r'] else []

theorem eol_eq (w : Writer) : w.eol = w.cr ++ ['\n'] := by
  rw [Writer.eol, Writer.cr]
  split_ifs <;> rfl

theorem mem_cr (w : Writer) : ∀ c ∈ w.cr, isSpace c ∧ c ≠ '\n' := by
  rw [Writer.cr]
  split_ifs
  · intro c hc
    rw [List.mem_singleton.mp hc]
    decide
  · exact fun c hc => absurd hc List.not_mem_nil

def Block.texts (w : Writer) (b : Block) : List (List Char) := (b.annotations ++ b.rows).map w.row

/-- A carriage return behind each text but the last. -/
def ended (cr : List Char) : List (List Char) → List (List Char)
  | [] => []
  | [t] => [t]
  | t :: next :: ts => (t ++ cr) :: ended cr (next :: ts)

def blockTexts (cr : List Char) : List (List (List Char)) → List (List (List Char))
  | [] => []
  | [ts] => [ended cr ts]
  | ts :: next :: blocks => ts.map (· ++ cr) :: blockTexts cr (next :: blocks)

section Ended

variable {cr : List Char}

theorem ended_append {ts rest : List (List Char)} (hne : rest ≠ []) : ended cr (ts ++ rest) = ts.map (· ++ cr) ++ ended cr rest := by
  induction ts with
  | nil => rfl
  | cons t ts ih =>
    obtain ⟨next, more, hmore⟩ : ∃ next more, ts ++ rest = next :: more :=
      List.exists_cons_of_ne_nil fun h => hne (List.append_eq_nil_iff.mp h).2
    rw [List.cons_append, hmore, ended, ← hmore, ih, List.map_cons, List.cons_append]

theorem ended_intercalate : ∀ {blocks : List (List (List Char))}, (∀ ts ∈ blocks, ts ≠ []) →
    ended cr ([[]].intercalate blocks) = [cr].intercalate (blockTexts cr blocks)
  | [], _ => rfl
  | [ts], _ => by rw [List.intercalate_singleton, blockTexts, List.intercalate_singleton]
  | ts :: next :: blocks, hne => by
    have hrest := ended_intercalate fun ts' h => hne ts' (List.mem_cons_of_mem ts h)
    have hnonempty : [[]].intercalate (next :: blocks) ≠ ([] : List (List Char)) := by
      rw [intercalate_cons]
      exact fun h => hne next (List.mem_cons_of_mem _ List.mem_cons_self) (List.append_eq_nil_iff.mp h).1
    have hblocks : blockTexts cr (next :: blocks) ≠ [] := by cases blocks <;> exact List.cons_ne_nil _ _
    obtain ⟨first, more, hmore⟩ := List.exists_cons_of_ne_nil hblocks
    obtain ⟨t, texts, htexts⟩ := List.exists_cons_of_ne_nil hnonempty
    have hempty : ended cr ([] :: [[]].intercalate (next :: blocks)) = cr :: ended cr ([[]].intercalate (next :: blocks)) := by
      rw [htexts, ended, List.nil_append]
    rw [List.intercalate_cons_cons, List.append_assoc, List.singleton_append, ended_append (List.cons_ne_nil _ _), hempty, hrest, blockTexts, hmore,
      List.intercalate_cons_cons, List.append_assoc, List.singleton_append]

theorem flatMap_eol : ∀ {ts : List (List Char)}, ts ≠ [] →
    (ts.flatMap fun t => t ++ (cr ++ ['\n'])) = joinLines (ended cr ts) ++ (cr ++ ['\n'])
  | [], hne => absurd rfl hne
  | [t], _ => by rw [List.flatMap_cons, List.flatMap_nil, List.append_nil, ended, joinLines_singleton]
  | t :: next :: ts, _ => by
    have hne : ended cr (next :: ts) ≠ [] := by cases ts <;> exact List.cons_ne_nil _ _
    rw [List.flatMap_cons, flatMap_eol (List.cons_ne_nil next ts), ended, joinLines_cons _ hne]
    simp

theorem joinLines_map_append : ∀ {ts : List (List Char)}, ts ≠ [] → joinLines (ts.map (· ++ cr)) = joinLines (ended cr ts) ++ cr
  | [], hne => absurd rfl hne
  | [t], _ => by rw [List.map_singleton, ended, joinLines_singleton, joinLines_singleton]
  | t :: next :: ts, _ => by
    have hne : ended cr (next :: ts) ≠ [] := by cases ts <;> exact List.cons_ne_nil _ _
    have hrest := joinLines_map_append (List.cons_ne_nil next ts)
    have hmap : (next :: ts).map (· ++ cr) ≠ [] := List.cons_ne_nil _ _
    rw [List.map_cons, joinLines_cons _ hmap, hrest, ended, joinLines_cons _ hne, List.append_assoc (t ++ cr)]
    rfl

theorem mem_ended {t : List Char} : ∀ {ts : List (List Char)}, t ∈ ended cr ts → ∃ t' ∈ ts, t = t' ∨ t = t' ++ cr
  | [], h => absurd h List.not_mem_nil
  | [t'], h => ⟨t', List.mem_cons_self, .inl (List.mem_singleton.mp h)⟩
  | t' :: next :: ts, h => by
    rcases List.mem_cons.mp h with rfl | h
    · exact ⟨t', List.mem_cons_self, .inr rfl⟩
    · obtain ⟨t'', ht, heq⟩ := mem_ended h
      exact ⟨t'', List.mem_cons_of_mem _ ht, heq⟩

theorem mem_blockTexts : ∀ {blocks : List (List (List Char))} {ts : List (List Char)} {t : List Char}, ts ∈ blockTexts cr blocks → t ∈ ts →
    ∃ ts' ∈ blocks, ∃ t' ∈ ts', t = t' ∨ t = t' ++ cr
  | [], _, _, h, _ => absurd h List.not_mem_nil
  | [ts'], ts, t, h, ht => by
    obtain ⟨t', ht', heq⟩ := mem_ended (List.mem_singleton.mp h ▸ ht)
    exact ⟨ts', List.mem_cons_self, t', ht', heq⟩
  | ts' :: next :: blocks, ts, t, h, ht => by
    rcases List.mem_cons.mp h with rfl | h
    · obtain ⟨t', ht', rfl⟩ := List.mem_map.mp ht
      exact ⟨ts', List.mem_cons_self, t', ht', .inr rfl⟩
    · obtain ⟨ts'', hts, hrest⟩ := mem_blockTexts h ht
      exact ⟨ts'', List.mem_cons_of_mem _ hts, hrest⟩

theorem ended_ne_nil {ts : List (List Char)} (h : ts ≠ []) : ended cr ts ≠ [] := by
  obtain ⟨t, ts, rfl⟩ := List.exists_cons_of_ne_nil h
  cases ts <;> exact List.cons_ne_nil _ _

theorem blockTexts_ne_nil : ∀ {blocks : List (List (List Char))}, (∀ ts ∈ blocks, ts ≠ []) → ∀ ts ∈ blockTexts cr blocks, ts ≠ []
  | [], _, _, h => absurd h List.not_mem_nil
  | [ts'], hne, ts, h => List.mem_singleton.mp h ▸ ended_ne_nil (hne ts' List.mem_cons_self)
  | ts' :: next :: blocks, hne, ts, h => by
    rcases List.mem_cons.mp h with rfl | h
    · exact fun hnil => hne ts' List.mem_cons_self (List.map_eq_nil_iff.mp hnil)
    · exact blockTexts_ne_nil (fun ts'' hts => hne ts'' (List.mem_cons_of_mem _ hts)) ts h

theorem ended_nil : ∀ ts : List (List Char), ended [] ts = ts
  | [] => rfl
  | [_] => rfl
  | t :: next :: ts => by rw [ended, List.append_nil, ended_nil (next :: ts)]

theorem blockTexts_eq {cr : List Char} : ∀ {blocks : List (List (List Char))}, cr = [] ∨ blocks.length ≤ 1 →
    blockTexts cr blocks = blocks.map (ended cr)
  | [], _ => rfl
  | [_], _ => rfl
  | ts :: next :: blocks, h => by
    obtain rfl : cr = [] := h.resolve_right (by simp)
    have hmap : ts.map (· ++ []) = ended [] ts := (List.map_congr_left fun t _ => List.append_nil t).trans ((List.map_id' ts).trans (ended_nil ts).symm)
    rw [blockTexts, hmap, blockTexts_eq (.inl rfl)]
    rfl

end Ended

/-! ### Records as they are written -/

theorem fieldText_field (w : Writer) (f : String) : Csv.FieldText f (w.field f) := by
  rw [Writer.field]
  cases hq : w.quoted f with
  | true => exact Csv.FieldText.quoted f
  | false => exact Csv.FieldText.plain f (w.plain f hq).1

theorem text_fields (w : Writer) (eol : List Char) : ∀ (cells : List String) {f : String} {t : List Char}, Csv.FieldText f t →
    Csv.Text eol [f :: cells] (t ++ cells.flatMap fun f => ',' :: w.field f) ∧
      ∀ {rows : List (List String)} {s : List Char}, Csv.Text eol rows s →
        Csv.Text eol ((f :: cells) :: rows) (t ++ (cells.flatMap fun f => ',' :: w.field f) ++ (eol ++ s))
  | [], f, t, hf => by
    rw [List.flatMap_nil, List.append_nil]
    exact ⟨.one hf, fun hs => .line hf hs⟩
  | g :: cells, f, t, hf => by
    obtain ⟨hone, hmore⟩ := text_fields w eol cells (fieldText_field w g)
    rw [List.flatMap_cons, List.cons_append]
    refine ⟨.comma hf hone, fun hs => ?_⟩
    rw [List.append_assoc, List.cons_append]
    exact .comma hf (hmore hs)

/-- Records whose first fields need no quotes, one after the other. -/
theorem text_rows (w : Writer) (cr : List Char) : ∀ {rows : List (List String)}, rows ≠ [] →
    (∀ row ∈ rows, ∃ first cells, row = first :: cells ∧ ∀ c ∈ first.toList, ¬Csv.special c) →
    Csv.Text (cr ++ ['\n']) rows (joinLines (ended cr (rows.map w.row)))
  | [], hne, _ => absurd rfl hne
  | row :: rows, _, h => by
    obtain ⟨first, cells, rfl, hfirst⟩ := h row List.mem_cons_self
    have hfields := text_fields w (cr ++ ['\n']) cells (.plain first hfirst)
    cases rows with
    | nil =>
      rw [List.map_singleton, ended, joinLines_singleton]
      exact hfields.1
    | cons next more =>
      have hrest := text_rows w cr (List.cons_ne_nil next more) fun row hrow => h row (List.mem_cons_of_mem _ hrow)
      have hmore := hfields.2 hrest
      rw [List.append_assoc cr] at hmore
      have hne : ended cr ((next :: more).map w.row) ≠ [] := ended_ne_nil (List.cons_ne_nil _ _)
      rw [List.map_cons, List.map_cons, ended, ← List.map_cons, joinLines_cons _ hne, List.append_assoc]
      exact hmore

/-! ### Lines of a block -/

/-- Labels and values that do not disturb the lines. -/
def Block.CalmCells (b : Block) : Prop :=
  (∀ label ∈ b.columns, Calm label.toList) ∧ ∀ t ∈ b.tables, ∀ row ∈ t.rows, ∀ value ∈ row, Calm value.toList

theorem calm_of_notMem {cs : List Char} (h : '\n' ∉ cs) : Calm cs := (calm_iff cs).mpr (by rw [reads_within h]; rfl)

theorem notMem_repr (n : ℕ) : '\n' ∉ (Nat.repr n).toList := fun h => by
  rw [Nat.toList_repr] at h
  exact absurd (Nat.isDigit_of_mem_toDigits (by decide) (by decide) h) (by decide)

theorem rows_shape (hcalm : b.CalmCells) {row : List String} (hrow : row ∈ b.rows) :
    ∃ cells, row = "" :: cells ∧ cells ≠ [] ∧ ∀ f ∈ cells, Calm f.toList := by
  rcases List.mem_cons.mp hrow with rfl | hrow
  · refine ⟨_, rfl, List.cons_ne_nil _ _, fun f hf => ?_⟩
    rcases List.mem_cons.mp hf with rfl | hf
    · exact calm_of_notMem (by decide)
    · rcases List.mem_cons.mp hf with rfl | hf
      · exact calm_of_notMem (by decide)
      · exact hcalm.1 f hf
  · obtain ⟨t, ht, hrow⟩ := List.mem_flatMap.mp hrow
    obtain ⟨values, hvalues, rfl⟩ := List.mem_map.mp hrow
    refine ⟨_, rfl, List.cons_ne_nil _ _, fun f hf => ?_⟩
    rcases List.mem_cons.mp hf with rfl | hf
    · exact calm_of_notMem (by decide)
    · rcases List.mem_cons.mp hf with rfl | hf
      · exact calm_of_notMem (notMem_repr t.id)
      · exact hcalm.2 t ht values hvalues f hf

theorem annotations_shape (b : Block) {row : List String} (hrow : row ∈ b.annotations) :
    ∃ first cells, row = first :: cells ∧ cells ≠ [] ∧ first ∈ ["#datatype", "#group", "#default"] ∧ ∀ f ∈ cells, '\n' ∉ f.toList := by
  have hdefaults : b.defaults ≠ [] := List.ne_nil_of_length_eq_add_one b.length_defaults
  have hfixed : ∀ f ∈ ["string", "long", "false", "true"], '\n' ∉ f.toList := by decide
  rw [Block.annotations, List.mem_cons, List.mem_cons, List.mem_singleton] at hrow
  rcases hrow with rfl | rfl | rfl
  · refine ⟨_, _, rfl, List.cons_ne_nil _ _, by decide, fun f hf => ?_⟩
    rcases List.mem_cons.mp hf with rfl | hf
    · exact hfixed _ (by decide)
    · rcases List.mem_cons.mp hf with rfl | hf
      · exact hfixed _ (by decide)
      · exact b.one_line f (List.mem_append_left _ hf)
  · refine ⟨_, _, rfl, List.cons_ne_nil _ _, by decide, fun f hf => ?_⟩
    rcases List.mem_cons.mp hf with rfl | hf
    · exact hfixed _ (by decide)
    · rcases List.mem_cons.mp hf with rfl | hf
      · exact hfixed _ (by decide)
      · obtain ⟨flag, -, rfl⟩ := List.mem_map.mp hf
        cases flag <;> exact hfixed _ (by decide)
  · exact ⟨_, _, rfl, hdefaults, by decide, fun f hf => b.one_line f (List.mem_append_right _ hf)⟩

theorem notMem_field (w : Writer) {f : String} (h : '\n' ∉ f.toList) : '\n' ∉ w.field f := by
  rw [Writer.field]
  split_ifs
  · intro hmem
    rcases List.mem_append.mp hmem with hmem | hmem
    · rcases List.mem_cons.mp hmem with heq | hmem
      · exact absurd heq (by decide)
      · obtain ⟨c, hc, hmem⟩ := List.mem_flatMap.mp hmem
        split_ifs at hmem
        · exact absurd hmem (by decide)
        · exact h (List.mem_singleton.mp hmem ▸ hc)
    · exact absurd hmem (by decide)
  · exact h

theorem notMem_row (w : Writer) {first : String} {cells : List String} (hfirst : '\n' ∉ first.toList) (h : ∀ f ∈ cells, '\n' ∉ f.toList) :
    '\n' ∉ w.row (first :: cells) := by
  rw [Writer.row, List.headD_cons, List.drop_one, List.tail_cons]
  intro hmem
  rcases List.mem_append.mp hmem with hmem | hmem
  · exact hfirst hmem
  · obtain ⟨f, hf, hmem⟩ := List.mem_flatMap.mp hmem
    rcases List.mem_cons.mp hmem with heq | hmem
    · exact absurd heq (by decide)
    · exact notMem_field w (h f hf) hmem

theorem head_row (w : Writer) (first : String) {cells : List String} (h : cells ≠ []) :
    (w.row (first :: cells)).head? = first.toList.head?.or (some ',') := by
  obtain ⟨f, cells, rfl⟩ := List.exists_cons_of_ne_nil h
  rw [Writer.row, List.headD_cons, List.drop_one, List.tail_cons, List.head?_append]
  rfl

theorem annotation_names : ∀ first ∈ ["#datatype", "#group", "#default"], first.toList.head? = some '#' ∧ ∀ c ∈ first.toList, ¬Csv.special c := by
  have hall : ["#datatype", "#group", "#default"].all (fun first => first.toList.head? = some '#' ∧ first.toList.all fun c => !Csv.special c) := by
    decide
  intro first hfirst
  obtain ⟨hsign, hplain⟩ := of_decide_eq_true (List.all_eq_true.mp hall first hfirst)
  exact ⟨hsign, fun c hc hspecial => by simpa [hspecial] using List.all_eq_true.mp hplain c hc⟩

/-- An annotation is one line. -/
theorem lines_annotations (w : Writer) (b : Block) {row : List String} (hrow : row ∈ b.annotations) {cr : List Char} (hcr : ∀ c ∈ cr, isSpace c ∧ c ≠ '\n') :
    lines (w.row row ++ cr) = [w.row row ++ cr] ∧ isAnnotationLine (w.row row ++ cr) ∧ ¬isBlank (w.row row ++ cr) := by
  obtain ⟨first, cells, rfl, hne, hfirst, hcells⟩ := annotations_shape b hrow
  have hbreak : '\n' ∉ w.row (first :: cells) ++ cr := fun hmem => by
    rcases List.mem_append.mp hmem with hmem | hmem
    · exact notMem_row w (notMem_of_not_special (annotation_names first hfirst).2) hcells hmem
    · exact (hcr _ hmem).2 rfl
  have hhead : (w.row (first :: cells) ++ cr).head? = some '#' := by
    rw [List.head?_append, head_row w first hne, (annotation_names first hfirst).1]
    rfl
  refine ⟨List.splitOn_eq_singleton hbreak, decide_eq_true hhead, fun hblank => ?_⟩
  exact absurd (List.all_eq_true.mp hblank '#' (List.mem_of_mem_head? hhead)) (by decide)

/-- No line of a record begins with a number sign or is blank. -/
theorem lines_rows (w : Writer) (hcalm : b.CalmCells) {row : List String} (hrow : row ∈ b.rows) {cr : List Char} (hcr : ∀ c ∈ cr, isSpace c ∧ c ≠ '\n') :
    ∀ l ∈ lines (w.row row ++ cr), ¬isAnnotationLine l ∧ ¬isBlank l := by
  obtain ⟨cells, rfl, hne, hcells⟩ := rows_shape hcalm hrow
  have hbreak : '\n' ∉ cr := fun h => (hcr _ h).2 rfl
  have hread : reads .within (w.row ("" :: cells) ++ cr) = some .within := by
    rw [reads_append, reads_row w (by decide) hcells]
    exact reads_within hbreak
  have hhead : (w.row ("" :: cells) ++ cr).head? = some ',' := by
    rw [List.head?_append, head_row w "" hne]
    rfl
  obtain ⟨l, ls, hls, hl, hblank, hrest⟩ := lines_of_reads hread hhead (by decide)
  rw [hls]
  intro x hx
  rcases List.mem_cons.mp hx with rfl | hx
  · exact ⟨fun h => absurd (hl.symm.trans (of_decide_eq_true h)) (by decide), hblank⟩
  · exact ⟨fun h => (hrest x hx).1 (of_decide_eq_true h), (hrest x hx).2⟩

theorem texts_eq (w : Writer) (b : Block) : b.texts w = b.annotations.map w.row ++ b.rows.map w.row := List.map_append

theorem texts_ne_nil (w : Writer) (b : Block) : b.texts w ≠ [] := List.cons_ne_nil _ _

/-- The annotations of a block, and the lines of its records. -/
theorem filter_lines (w : Writer) (hcalm : b.CalmCells) {cr : List Char} (hcr : ∀ c ∈ cr, isSpace c ∧ c ≠ '\n') (records : List (List Char))
    (hrecords : ∀ t ∈ records, ∃ row ∈ b.rows, t = w.row row ∨ t = w.row row ++ cr) :
    (((b.annotations.map fun row => w.row row ++ cr) ++ records).flatMap lines).filter isAnnotationLine = (b.annotations.map fun row => w.row row ++ cr) ∧
      (((b.annotations.map fun row => w.row row ++ cr) ++ records).flatMap lines).filter (fun l => !isAnnotationLine l) = records.flatMap lines := by
  have hannotations : (b.annotations.map fun row => w.row row ++ cr).flatMap lines = b.annotations.map fun row => w.row row ++ cr := by
    rw [List.flatMap_map]
    refine (List.flatMap_congr fun row hrow => (lines_annotations w b hrow hcr).1).trans ?_
    exact List.flatMap_pure_eq_map (fun row => w.row row ++ cr) b.annotations
  have hsign : ∀ l ∈ b.annotations.map fun row => w.row row ++ cr, isAnnotationLine l = true := fun l hl => by
    obtain ⟨row, hrow, rfl⟩ := List.mem_map.mp hl
    exact (lines_annotations w b hrow hcr).2.1
  have hplain : ∀ l ∈ records.flatMap lines, ¬isAnnotationLine l = true := fun l hl => by
    obtain ⟨t, ht, hl⟩ := List.mem_flatMap.mp hl
    obtain ⟨row, hrow, rfl | rfl⟩ := hrecords t ht
    · rw [← List.append_nil (w.row row)] at hl
      exact (lines_rows w hcalm hrow (fun c hc => absurd hc List.not_mem_nil) l hl).1
    · exact (lines_rows w hcalm hrow hcr l hl).1
  rw [List.flatMap_append, hannotations, List.filter_append, List.filter_append]
  constructor
  · rw [List.filter_eq_self.mpr hsign, List.filter_eq_nil_iff.mpr hplain, List.append_nil]
  · rw [List.filter_eq_nil_iff.mpr fun l hl => by simp [hsign l hl], List.filter_eq_self.mpr fun l hl => by simp [hplain l hl], List.nil_append]

/-! ### Reading a response -/

theorem plain_first (hcalm : b.CalmCells) : ∀ row ∈ b.rows, ∃ first cells, row = first :: cells ∧ ∀ c ∈ first.toList, ¬Csv.special c :=
  fun _ hrow => by
    obtain ⟨cells, rfl, -⟩ := rows_shape hcalm hrow
    exact ⟨"", cells, rfl, fun c hc => absurd hc List.not_mem_nil⟩

theorem length_rows (b : Block) : ∀ row ∈ b.rows, row.length = b.columns.length + 3 := by
  intro row hrow
  rcases List.mem_cons.mp hrow with rfl | hrow
  · rfl
  · obtain ⟨t, ht, hrow⟩ := List.mem_flatMap.mp hrow
    obtain ⟨values, hvalues, rfl⟩ := List.mem_map.mp hrow
    exact congrArg (· + 3) (b.length_row t ht values hvalues)

theorem length_annotations (b : Block) : ∀ row ∈ b.annotations, row.length = b.columns.length + 3 := by
  intro row hrow
  rw [Block.annotations, List.mem_cons, List.mem_cons, List.mem_singleton] at hrow
  rcases hrow with rfl | rfl | rfl
  · exact congrArg (· + 3) b.length_datatypes
  · exact congrArg (· + 3) ((List.length_map _).trans b.length_group)
  · exact congrArg (· + 1) b.length_defaults

theorem isLineBreak_eol (w : Writer) : Csv.IsLineBreak (w.cr ++ ['\n']) := by
  rw [← eol_eq, Writer.eol]
  split_ifs
  · exact .inr rfl
  · exact .inl rfl

theorem text_block (w : Writer) (hcalm : b.CalmCells) : Csv.Text (w.cr ++ ['\n']) b.rows (joinLines (ended w.cr (b.rows.map w.row))) :=
  text_rows w w.cr (List.cons_ne_nil _ _) (plain_first hcalm)

theorem parse_rows {parse : List Char → List (List String)} (hparse : Csv.Reads parse) (w : Writer) (hcalm : b.CalmCells) :
    parse (joinLines (ended w.cr (b.rows.map w.row))) = b.rows :=
  hparse.records (isLineBreak_eol w) (text_block w hcalm) (n := b.columns.length + 3) (by omega) (length_rows b)

def Block.groupRow (b : Block) : List String := "#group" :: "false" :: "false" :: b.group.map flagText

/-- Of the annotations all but the last default is read at least. -/
theorem parse_annotations {parse : List Char → List (List String)} (hparse : Csv.Reads parse) (w : Writer) (b : Block) :
    ∃ defaults, parse (joinLines (b.annotations.map fun row => w.row row ++ w.cr)) =
      ["#datatype" :: "string" :: "long" :: b.datatypes, b.groupRow, "#default" :: defaults] := by
  have htext : Csv.Text (w.cr ++ ['\n']) b.annotations (joinLines (ended w.cr (b.annotations.map w.row))) :=
    text_rows w w.cr (List.cons_ne_nil _ _) fun row hrow => by
      obtain ⟨first, cells, rfl, -, hfirst, -⟩ := annotations_shape b hrow
      exact ⟨first, cells, rfl, (annotation_names first hfirst).2⟩
  have hmap : (b.annotations.map fun row => w.row row ++ w.cr) = (b.annotations.map w.row).map (· ++ w.cr) := by
    rw [List.map_map]
    rfl
  have hne : b.annotations.map w.row ≠ [] := List.cons_ne_nil _ _
  rw [hmap, joinLines_map_append hne]
  cases hcrlf : w.crlf with
  | false =>
    have hcr : w.cr = [] := by rw [Writer.cr, hcrlf]; rfl
    have hrecords := hparse.records (isLineBreak_eol w) htext (n := b.columns.length + 3) (by omega) (length_annotations b)
    exact ⟨b.defaults, by rw [hcr, List.append_nil, ← hcr, hrecords]; rfl⟩
  | true =>
    have hcr : w.cr = ['\r'] := by rw [Writer.cr, hcrlf]; rfl
    obtain ⟨init, last, hlast⟩ := (List.eq_nil_or_concat b.defaults).resolve_left (List.ne_nil_of_length_eq_add_one b.length_defaults)
    have hannotations : b.annotations = ["#datatype" :: "string" :: "long" :: b.datatypes, b.groupRow] ++ [("#default" :: init) ++ [last]] := by
      rw [Block.annotations, hlast, List.concat_eq_append]
      rfl
    have hlength := length_annotations b
    rw [hannotations] at hlength
    rw [hcr, ← hcr, hcr] at htext
    nth_rewrite 1 [hannotations] at htext
    obtain ⟨last', hparsed⟩ := hparse.lone htext le_rfl (n := b.columns.length + 3) (by omega) hlength
    exact ⟨init ++ [last'], by rw [hcr, hparsed]; rfl⟩

theorem row_ne_nil (w : Writer) {first : String} {cells : List String} (hne : cells ≠ []) : w.row (first :: cells) ≠ [] := fun h => by
  obtain ⟨init, c, heq, -⟩ := row_ends w first hne
  rw [h] at heq
  exact List.append_ne_nil_of_right_ne_nil init (List.cons_ne_nil c []) heq.symm

theorem joinLines_ne_nil {t : List Char} {ts : List (List Char)} (h : t ≠ []) : joinLines (t :: ts) ≠ [] := by
  cases ts with
  | nil => rw [joinLines_singleton]; exact h
  | cons next more =>
    rw [joinLines_cons _ (List.cons_ne_nil _ _)]
    exact fun hnil => h (List.append_eq_nil_iff.mp hnil).1

theorem joinLines_ended_ne_nil {cr t : List Char} {ts : List (List Char)} (h : t ≠ []) : joinLines (ended cr (t :: ts)) ≠ [] := by
  cases ts with
  | nil => exact joinLines_ne_nil h
  | cons next more => exact joinLines_ne_nil fun hnil => h (List.append_eq_nil_iff.mp hnil).1

theorem find?_groupRow (b : Block) (defaults : List String) :
    ["#datatype" :: "string" :: "long" :: b.datatypes, b.groupRow, "#default" :: defaults].find? (fun row => row[0]? = some "#group") =
      some b.groupRow := by
  rw [List.find?_cons_of_neg (by simp), List.find?_cons_of_pos (by simp [Block.groupRow])]

/-- A block whose tables have rows is read table by table. -/
theorem parseTables_block {parse : List Char → List (List String)} (hparse : Csv.Reads parse) (w : Writer) (hcalm : b.CalmCells)
    (hrows : ∀ t ∈ b.tables, t.rows ≠ []) :
    ∃ tables, parseTables parse (joinLines (ended w.cr (b.texts w))) = some tables ∧
      tables.map (fun table => (table.data, table.groupKey)) = b.expected := by
  have hfilter := filter_lines w hcalm (mem_cr w) (ended w.cr (b.rows.map w.row)) fun t ht => by
    obtain ⟨t', ht', heq⟩ := mem_ended ht
    obtain ⟨row, hrow, rfl⟩ := List.mem_map.mp ht'
    exact ⟨row, hrow, heq⟩
  have hlines : lines (joinLines (ended w.cr (b.texts w))) =
      ((b.annotations.map fun row => w.row row ++ w.cr) ++ ended w.cr (b.rows.map w.row)).flatMap lines := by
    have hrecords : b.rows.map w.row ≠ [] := List.cons_ne_nil _ _
    have hmap : (b.annotations.map w.row).map (· ++ w.cr) = b.annotations.map fun row => w.row row ++ w.cr := by
      rw [List.map_map]
      rfl
    rw [lines_joinLines_texts (ended_ne_nil (texts_ne_nil w b)), texts_eq, ended_append hrecords, hmap]
  obtain ⟨defaults, hannotations⟩ := parse_annotations hparse w b
  refine ⟨b.tables.map fun t => tableOf b.header (groupKeyIndices b.groupRow)
    (["#datatype" :: "string" :: "long" :: b.datatypes, b.groupRow, "#default" :: defaults].find? fun row => row[0]? = some "#default") t.records, ?_, ?_⟩
  · have hannotationLines : joinLines (b.annotations.map fun row => w.row row ++ w.cr) ≠ [] :=
      joinLines_ne_nil fun hnil => row_ne_nil w (List.cons_ne_nil _ _) (List.append_eq_nil_iff.mp hnil).1
    have hrecordLines : joinLines (ended w.cr (b.rows.map w.row)) ≠ [] := joinLines_ended_ne_nil (row_ne_nil w (List.cons_ne_nil _ _))
    have hheader : (b.rows).head? = some b.header := rfl
    rw [parseTables, hlines, hfilter.1, hfilter.2, joinLines_flatMap_lines, if_neg hannotationLines, if_neg hrecordLines, parse_rows hparse w hcalm,
      hannotations, hheader, find?_groupRow]
    refine congrArg some ?_
    rw [Block.rows, List.drop_one, List.tail_cons, tablesData_records b hrows, List.map_map]
    rfl
  · rw [Block.expected, List.map_map]
    refine List.map_congr_left fun t ht => Prod.ext rfl ?_
    obtain ⟨row, rows, hrow⟩ := List.exists_cons_of_ne_nil (hrows t ht)
    have hhead : t.records.head? = some (t.cells row) := by rw [Table.records, hrow]; rfl
    show groupKeyOf b.header _ (t.records.head?.or _) = _
    rw [hhead]
    exact groupKeyOf_row ht (hrow ▸ List.mem_cons_self)

theorem exists_last : ∀ {blocks : List (List (List Char))}, blocks ≠ [] → (∀ ts ∈ blocks, ts ≠ []) →
    ∃ pre t, [[]].intercalate blocks = pre ++ [t] ∧ ∃ ts ∈ blocks, t ∈ ts
  | [], hne, _ => absurd rfl hne
  | [ts], _, hne => by
    obtain ⟨pre, t, hts⟩ := (List.eq_nil_or_concat ts).resolve_left (hne ts List.mem_cons_self)
    rw [List.concat_eq_append] at hts
    rw [List.intercalate_singleton]
    exact ⟨pre, t, hts, ts, List.mem_cons_self, hts ▸ List.mem_append_right _ (List.mem_singleton_self t)⟩
  | ts :: next :: blocks, _, hne => by
    obtain ⟨pre, t, hrest, ts', hts', ht⟩ := exists_last (List.cons_ne_nil next blocks) fun ts' h => hne ts' (List.mem_cons_of_mem _ h)
    refine ⟨ts ++ [[]] ++ pre, t, ?_, ts', List.mem_cons_of_mem _ hts', ht⟩
    rw [List.intercalate_cons_cons, hrest, List.append_assoc (ts ++ [[]])]

theorem head_ended {cr t : List Char} {ts : List (List Char)} {c : Char} (h : t.head? = some c) : (joinLines (ended cr (t :: ts))).head? = some c := by
  cases ts with
  | nil => rw [ended, joinLines_singleton, h]
  | cons next ts =>
    have hne : ended cr (next :: ts) ≠ [] := ended_ne_nil (List.cons_ne_nil next ts)
    rw [ended, joinLines_cons _ hne, List.append_assoc, List.head?_append, h]
    rfl

theorem text_ends (w : Writer) (hcalm : b.CalmCells) {t : List Char} (ht : t ∈ b.texts w) : ∃ init c, t = init ++ [c] ∧ ¬isSpace c := by
  obtain ⟨row, hrow, rfl⟩ := List.mem_map.mp ht
  rcases List.mem_append.mp hrow with hrow | hrow
  · obtain ⟨first, cells, rfl, hne, -⟩ := annotations_shape b hrow
    exact row_ends w first hne
  · obtain ⟨cells, rfl, hne, -⟩ := rows_shape hcalm hrow
    exact row_ends w "" hne

theorem text_lines (w : Writer) (hcalm : b.CalmCells) {t : List Char} (ht : t ∈ b.texts w) {cr : List Char} (hcr : ∀ c ∈ cr, isSpace c ∧ c ≠ '\n') :
    ∀ l ∈ lines (t ++ cr), ¬isBlank l := by
  obtain ⟨row, hrow, rfl⟩ := List.mem_map.mp ht
  intro l hl
  rcases List.mem_append.mp hrow with hrow | hrow
  · obtain ⟨hlines, -, hblank⟩ := lines_annotations w b hrow hcr
    rw [hlines, List.mem_singleton] at hl
    exact hl ▸ hblank
  · exact (lines_rows w hcalm hrow hcr l hl).2

/-- The text without white space at its end, and its chunks. -/
theorem chunks_response (w : Writer) {blocks : List Block} (hblocks : blocks ≠ []) (hcalm : ∀ b ∈ blocks, b.CalmCells) :
    trim (w.response blocks) ≠ [] ∧
      chunks (trim (w.response blocks)) = (blockTexts w.cr (blocks.map (Block.texts w))).map joinLines := by
  have hparts : blocks.map (Block.texts w) ≠ [] := fun h => hblocks (List.map_eq_nil_iff.mp h)
  have hne : ∀ ts ∈ blocks.map (Block.texts w), ts ≠ [] := fun ts hts => by
    obtain ⟨b, -, rfl⟩ := List.mem_map.mp hts
    exact texts_ne_nil w b
  obtain ⟨pre, t, hlast, ts, hts, ht⟩ := exists_last hparts hne
  obtain ⟨b, hb, rfl⟩ := List.mem_map.mp hts
  obtain ⟨init, d, hd, hspace⟩ := text_ends w (hcalm b hb) ht
  have hnonempty : [[]].intercalate (blocks.map (Block.texts w)) ≠ ([] : List (List Char)) := by
    rw [hlast]
    exact List.append_ne_nil_of_right_ne_nil _ (List.cons_ne_nil _ _)
  have hresponse : w.response blocks = joinLines ([w.cr].intercalate (blockTexts w.cr (blocks.map (Block.texts w)))) ++ (w.cr ++ ['\n']) := by
    rw [← ended_intercalate hne, ← flatMap_eol hnonempty, ← eol_eq]
    rfl
  have hends : ∃ before, joinLines ([w.cr].intercalate (blockTexts w.cr (blocks.map (Block.texts w)))) = before ++ [d] := by
    rw [← ended_intercalate hne, hlast, ended_append (List.cons_ne_nil _ _), ended, hd]
    by_cases hpre : pre.map (· ++ w.cr) = []
    · exact ⟨init, by rw [hpre, List.nil_append, joinLines_singleton]⟩
    · refine ⟨joinLines (pre.map (· ++ w.cr)) ++ '\n' :: init, ?_⟩
      rw [joinLines_append hpre (List.cons_ne_nil _ _), joinLines_singleton, List.append_assoc, List.cons_append]
  have hbegins : ∃ c, (joinLines ([w.cr].intercalate (blockTexts w.cr (blocks.map (Block.texts w))))).head? = some c ∧ ¬isSpace c := by
    obtain ⟨b', more, rfl⟩ := List.exists_cons_of_ne_nil hblocks
    have hsign : (w.row ("#datatype" :: "string" :: "long" :: b'.datatypes)).head? = some '#' := by
      rw [head_row w _ (List.cons_ne_nil _ _)]
      rfl
    refine ⟨'#', ?_, by decide⟩
    rw [← ended_intercalate hne, List.map_cons, intercalate_cons]
    exact head_ended hsign
  obtain ⟨before, hbefore⟩ := hends
  obtain ⟨c, hc, hcspace⟩ := hbegins
  have hws : ∀ c ∈ w.cr ++ ['\n'], isSpace c := fun c hc => by
    rcases List.mem_append.mp hc with hc | hc
    · exact (mem_cr w c hc).1
    · rw [List.mem_singleton.mp hc]; decide
  have htrim := trim_append hc hcspace hbefore hspace hws
  rw [hresponse, htrim]
  refine ⟨fun h => absurd (h.symm.trans hbefore) (by simp), ?_⟩
  refine chunks_intercalate (List.all_eq_true.mpr fun c hc => (mem_cr w c hc).1) (fun h => (mem_cr w _ h).2 rfl) ?_ (blockTexts_ne_nil hne) ?_
  · intro h
    obtain ⟨first, more, hfirst⟩ := List.exists_cons_of_ne_nil hparts
    rw [hfirst] at h
    cases more <;> exact List.cons_ne_nil _ _ h
  · intro ts hts t ht l hl
    obtain ⟨ts', hts', t', ht', rfl | rfl⟩ := mem_blockTexts hts ht
    · obtain ⟨b, hb, rfl⟩ := List.mem_map.mp hts'
      rw [← List.append_nil t] at hl
      exact text_lines w (hcalm b hb) ht' (fun c hc => absurd hc List.not_mem_nil) l hl
    · obtain ⟨b, hb, rfl⟩ := List.mem_map.mp hts'
      exact text_lines w (hcalm b hb) ht' (mem_cr w) l hl

theorem mapM_parseTables {parse : List Char → List (List String)} (hparse : Csv.Reads parse) (w : Writer) : ∀ {blocks : List Block},
    (∀ b ∈ blocks, b.CalmCells ∧ ∀ t ∈ b.tables, t.rows ≠ []) →
    ∃ tables, (blocks.map fun b => joinLines (ended w.cr (b.texts w))).mapM (parseTables parse) = some tables ∧
      tables.flatten.map (fun table => (table.data, table.groupKey)) = blocks.flatMap Block.expected
  | [], _ => ⟨[], rfl, rfl⟩
  | b :: blocks, h => by
    obtain ⟨tables, htables, hblock⟩ := parseTables_block hparse w (h b List.mem_cons_self).1 (h b List.mem_cons_self).2
    obtain ⟨rest, hrest, hblocks⟩ := mapM_parseTables hparse w fun b' hb' => h b' (List.mem_cons_of_mem _ hb')
    refine ⟨tables :: rest, ?_, ?_⟩
    · rw [List.map_cons, List.mapM_cons, htables, hrest]
      rfl
    · rw [List.flatten_cons, List.map_append, hblock, hblocks, List.flatMap_cons]

theorem readBy_of_readable {parse : List Char → List (List String)} (hparse : Csv.Reads parse) {blocks : List Block} (h : Readable w blocks) :
    ReadBy parse w blocks := by
  obtain ⟨hcrlf, hcells⟩ := h
  by_cases hblocks : blocks = []
  · subst hblocks
    exact ⟨[], rfl, rfl⟩
  have hcalm : ∀ b ∈ blocks, b.CalmCells := fun b hb => ⟨(hcells b hb).1, fun t ht => ((hcells b hb).2 t ht).2⟩
  obtain ⟨htrim, hchunks⟩ := chunks_response w hblocks hcalm
  have hone : w.cr = [] ∨ (blocks.map (Block.texts w)).length ≤ 1 := by
    rw [List.length_map, Writer.cr]
    split_ifs with h
    · exact .inr (hcrlf h)
    · exact .inl rfl
  obtain ⟨tables, htables, hexpected⟩ := mapM_parseTables hparse w fun b hb => ⟨hcalm b hb, fun t ht => ((hcells b hb).2 t ht).1⟩
  refine ⟨tables.flatten, ?_, hexpected⟩
  rw [parseResponse, if_neg htrim, hchunks, blockTexts_eq hone, List.map_map, List.map_map]
  exact congrArg (Option.map List.flatten) htables

end FluxResponse
end Chronograf
