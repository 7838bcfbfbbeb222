/-
# Flux responses that are read completely

What is read of a response has rows in every table and no line that begins
with a number sign or is blank within a cell, whatever is read. So the tables
of a response come back from every reader of comma-separated values
just where all tables have such cells and rows, and no block but the last one
of a response ends with a carriage return.

Key theorems: `calm_of_reading`, `tables_of_parseTables`, `readable_of_readBy`, `readBy_iff`.
-/
import Chronograf.Flux.ResponseTables
import Chronograf.Lib.Checks
import Mathlib.Data.Fintype.EquivFin

namespace Chronograf
namespace FluxResponse

open Chunks

variable {w : Writer} {b : Block} {blocks : List Block} {parse : List Char → List (List String)} {z : String}

/-! ### Cells of texts without such lines -/

theorem reads_split {p : Place} {cs cs' : List Char} (h : (reads p (cs ++ cs')).isSome) :
    (reads p cs).isSome ∧ ∃ q, (reads q cs').isSome := by
  rw [reads_append] at h
  cases hq : reads p cs with
  | none => rw [hq] at h; exact absurd h Bool.false_ne_true
  | some q => exact ⟨rfl, q, by rwa [hq] at h⟩

theorem calm_of_fieldText {f : String} {t : List Char} (h : Csv.FieldText f t) {p : Place} (hreads : (reads p t).isSome) : Calm f.toList := by
  cases h with
  | quoted =>
    rw [reads_quoted, Option.isSome_map] at hreads
    exact (calm_iff _).mpr hreads
  | plain hplain => exact calm_of_notMem (notMem_of_not_special hplain)

theorem calm_of_text {eol : List Char} {rows : List (List String)} {text : List Char} (h : Csv.Text eol rows text) {p : Place}
    (hreads : (reads p text).isSome) : ∀ row ∈ rows, ∀ f ∈ row, Calm f.toList := by
  induction h generalizing p with
  | one hf =>
    intro row hrow f hmem
    rw [List.mem_singleton.mp hrow, List.mem_singleton] at hmem
    exact hmem ▸ calm_of_fieldText hf hreads
  | @comma f t s row rows hf hs ih =>
    obtain ⟨ht, q, hrest⟩ := reads_split hreads
    have hcomma : (reads q ([','] ++ s)).isSome := hrest
    obtain ⟨-, q', hs'⟩ := reads_split hcomma
    have hall := ih hs'
    intro row' hrow' g hg
    rcases List.mem_cons.mp hrow' with rfl | hrow'
    · rcases List.mem_cons.mp hg with rfl | hg
      · exact calm_of_fieldText hf ht
      · exact hall row List.mem_cons_self g hg
    · exact hall row' (List.mem_cons_of_mem _ hrow') g hg
  | @line f t s rows hf hs ih =>
    obtain ⟨ht, q, hrest⟩ := reads_split hreads
    obtain ⟨-, q', hs'⟩ := reads_split hrest
    intro row' hrow' g hg
    rcases List.mem_cons.mp hrow' with rfl | hrow'
    · rw [List.mem_singleton.mp hg]
      exact calm_of_fieldText hf ht
    · exact ih hs' row' hrow' g hg

theorem calm_of_reading {rows : List (List String)} {text : List Char} (h : Csv.Reading z rows text) {p : Place}
    (hreads : (reads p text).isSome) : ∀ row ∈ rows, ∀ f ∈ row, f = z ∨ Calm f.toList := by
  cases h with
  | none => exact fun row hrow => absurd hrow List.not_mem_nil
  | records _ htext => exact fun row hrow f hf => .inr (calm_of_text htext hreads row hrow f hf)
  | @lone rows row f text htext =>
    have hall := calm_of_text htext (reads_split hreads).1
    intro row' hrow' g hg
    rcases List.mem_append.mp hrow' with hrow' | hrow'
    · exact .inr (hall row' (List.mem_append_left _ hrow') g hg)
    · rw [List.mem_singleton.mp hrow', List.mem_append, List.mem_singleton] at hg
      rcases hg with hg | hg
      · exact .inr (hall _ (List.mem_append_right _ (List.mem_singleton_self _)) g (List.mem_append_left _ hg))
      · exact .inl hg

/-! ### Tables that are read -/

theorem dropLast_sublist_dropLast {ls ls' : List Line} (h : List.Sublist ls ls') : List.Sublist ls.dropLast ls'.dropLast := by
  have htail := h.reverse.tail
  rw [List.tail_reverse, List.tail_reverse] at htail
  exact List.reverse_sublist.mp htail

/-- The tables of a chunk with something beside annotations. -/
theorem tables_of_parseTables {chunk : List Char} {tables : List FluxTable} (h : parseTables parse chunk = some tables) :
    joinLines ((lines chunk).filter fun line => !isAnnotationLine line) = [] ∧ tables = [] ∨
      ∃ header, (parse (joinLines ((lines chunk).filter fun line => !isAnnotationLine line))).head? = some header ∧
        tables.map FluxTable.data =
          (tablesData header ((parse (joinLines ((lines chunk).filter fun line => !isAnnotationLine line))).drop 1)).map (header :: ·) := by
  rw [parseTables] at h
  split_ifs at h with hannotations hrest
  · exact .inl ⟨hrest, (Option.some_inj.mp h).symm⟩
  · obtain ⟨header, hheader, h⟩ := Option.bind_eq_some_iff.mp h
    obtain ⟨groupRow, -, h⟩ := Option.bind_eq_some_iff.mp h
    refine .inr ⟨header, hheader, ?_⟩
    rw [← Option.some_inj.mp h, List.map_map]
    rfl

theorem mem_tablesData {header : List String} {rows : List (List String)} {tableData : List (List String)} (h : tableData ∈ tablesData header rows) :
    tableData ≠ [] ∧ ∀ row ∈ tableData, row ∈ rows := by
  obtain ⟨hne, hrows⟩ := Props.mem_values_group h
  refine ⟨hne, fun row hrow => ?_⟩
  obtain ⟨k, hk⟩ := hrows row hrow
  obtain ⟨row', hrow', heq⟩ := List.mem_map.mp hk
  obtain ⟨-, rfl⟩ := Prod.mk.inj heq
  exact hrow'

theorem exists_mem_tablesData (header : List String) {rows : List (List String)} {row : List String} (h : row ∈ rows) :
    ∃ tableData ∈ tablesData header rows, row ∈ tableData :=
  Props.exists_mem_values_group arrayIndex (List.mem_map.mpr ⟨row, h, rfl⟩)

/-- A table that is read has rows, and no such line within a cell. -/
theorem table_of_parseTables (hreading : ∀ text, Csv.Reading z (parse text) text) {chunk : List Char}
    (hinterior : ∀ l ∈ (lines chunk).tail.dropLast, ¬isBlank l) {tables : List FluxTable} (h : parseTables parse chunk = some tables) :
    ∀ data ∈ tables.map FluxTable.data, 2 ≤ data.length ∧ ∀ row ∈ data, ∀ f ∈ row, f = z ∨ Calm f.toList := by
  rcases tables_of_parseTables h with ⟨-, rfl⟩ | ⟨header, hheader, htables⟩
  · exact fun data hdata => absurd hdata List.not_mem_nil
  have hreads : (reads .within (joinLines ((lines chunk).filter fun line => !isAnnotationLine line))).isSome := by
    have hsub : List.Sublist ((lines chunk).filter fun line => !isAnnotationLine line) (lines chunk) := List.filter_sublist
    by_cases hempty : ((lines chunk).filter fun line => !isAnnotationLine line) = []
    · rw [hempty]
      rfl
    refine (calm_iff _).mp ?_
    have hbreaks : ∀ l ∈ (lines chunk).filter fun line => !isAnnotationLine line, '\n' ∉ l := fun l hl => notMem_of_mem_splitOn (hsub.subset hl)
    rw [Calm, lines_joinLines hbreaks hempty]
    refine ⟨fun l hl hsign => ?_, fun l hl => hinterior l ((dropLast_sublist_dropLast hsub.tail).subset hl)⟩
    have hplain := (List.mem_filter.mp (List.mem_of_mem_tail hl)).2
    rw [isAnnotationLine, decide_eq_true hsign] at hplain
    exact absurd hplain Bool.false_ne_true
  have hcells := calm_of_reading (hreading _) hreads
  intro data hdata
  rw [htables] at hdata
  obtain ⟨tableData, htableData, rfl⟩ := List.mem_map.mp hdata
  obtain ⟨hne, hrows⟩ := mem_tablesData htableData
  refine ⟨Nat.succ_le_succ (List.length_pos_of_ne_nil hne), fun row hrow => hcells row ?_⟩
  rcases List.mem_cons.mp hrow with rfl | hrow
  · exact List.mem_of_mem_head? hheader
  · exact List.mem_of_mem_drop (hrows row hrow)

/-! ### When all tables come back -/

theorem header_mem_expected (hb : b ∈ blocks) {t : Table} (ht : t ∈ b.tables) : b.header :: t.records ∈ (blocks.flatMap Block.expected).map Prod.fst :=
  List.mem_map.mpr ⟨_, List.mem_flatMap.mpr ⟨b, hb, List.mem_map.mpr ⟨t, ht, rfl⟩⟩, rfl⟩

/-- A block with another one behind it, whose lines end with a carriage return. -/
theorem read_lone (hlone : ∀ {rows row f text}, Csv.Text ['\r', '\n'] (rows ++ [row ++ [f]]) text → parse (text ++ ['\r']) = rows ++ [row ++ [z]])
    (hcrlf : w.crlf = true) (hcalm : b.CalmCells) (hrows : ∀ t ∈ b.tables, t.rows ≠ []) {tables : List FluxTable}
    (h : parseTables parse (joinLines ((b.texts w).map (· ++ w.cr))) = some tables) : ∃ data ∈ tables.map FluxTable.data, ∃ row ∈ data, z ∈ row := by
  have hcr : w.cr = ['\r'] := by rw [Writer.cr, hcrlf]; rfl
  have hrecords : b.rows.map w.row ≠ [] := List.cons_ne_nil _ _
  have hlines : lines (joinLines ((b.texts w).map (· ++ w.cr))) =
      ((b.annotations.map fun row => w.row row ++ w.cr) ++ (b.rows.map w.row).map (· ++ w.cr)).flatMap lines := by
    have hne : (b.texts w).map (· ++ w.cr) ≠ [] := fun hnil => texts_ne_nil w b (List.map_eq_nil_iff.mp hnil)
    have hmap : (b.annotations.map w.row).map (· ++ w.cr) = b.annotations.map fun row => w.row row ++ w.cr := by
      rw [List.map_map]
      rfl
    rw [lines_joinLines_texts hne, texts_eq, List.map_append, hmap]
  have hfilter := (filter_lines w hcalm (mem_cr w) ((b.rows.map w.row).map (· ++ w.cr)) fun t ht => by
    obtain ⟨t', ht', rfl⟩ := List.mem_map.mp ht
    obtain ⟨row, hrow, rfl⟩ := List.mem_map.mp ht'
    exact ⟨row, hrow, .inr rfl⟩).2
  rw [← hlines] at hfilter
  have hplain : joinLines ((lines (joinLines ((b.texts w).map (· ++ w.cr)))).filter fun line => !isAnnotationLine line) =
      joinLines (ended w.cr (b.rows.map w.row)) ++ ['\r'] := by
    rw [hfilter, joinLines_flatMap_lines, joinLines_map_append hrecords, ← hcr]
  -- the last record is no header
  obtain ⟨t, ht⟩ := List.exists_mem_of_ne_nil _ b.tables_ne_nil
  have hbehind : b.tables.flatMap Table.records ≠ [] := fun hnil =>
    hrows t ht (List.map_eq_nil_iff.mp (List.flatMap_eq_nil_iff.mp hnil t ht))
  obtain ⟨init, last, hlast⟩ := (List.eq_nil_or_concat (b.tables.flatMap Table.records)).resolve_left hbehind
  have hsplit : b.rows = (b.header :: init) ++ [last] := by
    rw [Block.rows, hlast, List.concat_eq_append]
    rfl
  have hlength : last.length = b.columns.length + 3 := length_rows b last (hsplit ▸ List.mem_append_right _ (List.mem_singleton_self last))
  obtain ⟨row, f, rfl⟩ : ∃ row f, last = row ++ [f] := by
    obtain ⟨row, f, hrow⟩ := (List.eq_nil_or_concat last).resolve_left (List.ne_nil_of_length_eq_add_one hlength)
    exact ⟨row, f, by rw [hrow, List.concat_eq_append]⟩
  have htext := text_block w hcalm
  rw [hsplit, hcr] at htext
  have hparsed : parse (joinLines ((lines (joinLines ((b.texts w).map (· ++ w.cr)))).filter fun line => !isAnnotationLine line)) =
      (b.header :: init) ++ [row ++ [z]] := by
    rw [hplain, hsplit, hcr]
    exact hlone htext
  rcases tables_of_parseTables h with ⟨hempty, -⟩ | ⟨header, -, htables⟩
  · rw [hplain] at hempty
    exact absurd hempty (List.append_ne_nil_of_right_ne_nil _ (List.cons_ne_nil _ _))
  rw [hparsed, List.cons_append, List.drop_one, List.tail_cons] at htables
  have hmem : row ++ [z] ∈ init ++ [row ++ [z]] := List.mem_append_right _ (List.mem_singleton_self _)
  obtain ⟨tableData, htableData, hrow⟩ := exists_mem_tablesData header hmem
  refine ⟨header :: tableData, ?_, row ++ [z], List.mem_cons_of_mem _ hrow, List.mem_append_right _ (List.mem_singleton_self z)⟩
  rw [htables]
  exact List.mem_map_of_mem htableData

/-- From this reader the tables come back only where the response is readable. -/
theorem readable_of_readBy (hreading : ∀ text, Csv.Reading z (parse text) text)
    (hlone : ∀ {rows row f text}, Csv.Text ['\r', '\n'] (rows ++ [row ++ [f]]) text → parse (text ++ ['\r']) = rows ++ [row ++ [z]])
    (hz : ∀ data ∈ (blocks.flatMap Block.expected).map Prod.fst, ∀ row ∈ data, z ∉ row) (h : ReadBy parse w blocks) : Readable w blocks := by
  obtain ⟨tables, hparsed, hexpected⟩ := h
  have hdata : tables.map FluxTable.data = (blocks.flatMap Block.expected).map Prod.fst := by
    rw [← hexpected, List.map_map]
    rfl
  have hread : ∀ data ∈ (blocks.flatMap Block.expected).map Prod.fst, 2 ≤ data.length ∧ ∀ row ∈ data, ∀ f ∈ row, Calm f.toList := by
    intro data hmem
    rw [← hdata] at hmem
    rw [parseResponse] at hparsed
    split_ifs at hparsed with hempty
    · rw [← Option.some_inj.mp hparsed] at hmem
      exact absurd hmem List.not_mem_nil
    · obtain ⟨tables', htables', rfl⟩ := Option.map_eq_some_iff.mp hparsed
      obtain ⟨table, htable, rfl⟩ := List.mem_map.mp hmem
      obtain ⟨some_tables, hsome, htable⟩ := List.mem_flatten.mp htable
      obtain ⟨chunk, hchunk, hchunk'⟩ := Option.mem_of_mapM htables' hsome
      obtain ⟨hlength, hcells⟩ := table_of_parseTables hreading (interior_of_mem_chunks hchunk) hchunk' _ (List.mem_map_of_mem htable)
      refine ⟨hlength, fun row hrow f hf => (hcells row hrow f hf).resolve_left ?_⟩
      rintro rfl
      exact hz _ (hdata ▸ hmem) row hrow hf
  have hrows : ∀ b ∈ blocks, ∀ t ∈ b.tables, t.rows ≠ [] := by
    intro b hb t ht hnil
    have hlength := (hread _ (header_mem_expected hb ht)).1
    rw [Table.records, hnil] at hlength
    exact absurd (Nat.le_of_succ_le_succ hlength) (Nat.not_succ_le_zero 0)
  have hcalm : ∀ b ∈ blocks, b.CalmCells := by
    intro b hb
    constructor
    · obtain ⟨t, ht⟩ := List.exists_mem_of_ne_nil _ b.tables_ne_nil
      intro label hlabel
      refine (hread _ (header_mem_expected hb ht)).2 b.header List.mem_cons_self label ?_
      exact List.mem_cons_of_mem _ (List.mem_cons_of_mem _ (List.mem_cons_of_mem _ hlabel))
    · intro t ht row hrow value hvalue
      refine (hread _ (header_mem_expected hb ht)).2 (t.cells row) (List.mem_cons_of_mem _ (List.mem_map_of_mem hrow)) value ?_
      exact List.mem_cons_of_mem _ (List.mem_cons_of_mem _ (List.mem_cons_of_mem _ hvalue))
  refine ⟨fun hcrlf => ?_, fun b hb => ⟨(hcalm b hb).1, fun t ht => ⟨hrows b hb t ht, (hcalm b hb).2 t ht⟩⟩⟩
  by_contra hmany
  obtain ⟨first, next, rest, rfl⟩ : ∃ first next rest, blocks = first :: next :: rest := by
    rcases blocks with - | ⟨first, - | ⟨next, rest⟩⟩
    · exact absurd (Nat.zero_le 1) hmany
    · exact absurd le_rfl hmany
    · exact ⟨first, next, rest, rfl⟩
  obtain ⟨htrim, hchunks⟩ := chunks_response w (List.cons_ne_nil _ _) hcalm
  rw [parseResponse, if_neg htrim, hchunks] at hparsed
  obtain ⟨tables', htables', rfl⟩ := Option.map_eq_some_iff.mp hparsed
  rw [List.map_cons, List.map_cons, blockTexts, List.map_cons, List.mapM_cons] at htables'
  obtain ⟨firstTables, hfirst, htables'⟩ := Option.bind_eq_some_iff.mp htables'
  obtain ⟨restTables, -, htables'⟩ := Option.bind_eq_some_iff.mp htables'
  obtain rfl := Option.some_inj.mp htables'
  obtain ⟨data, hmem, row, hrow, hcell⟩ := read_lone hlone hcrlf (hcalm first List.mem_cons_self) (hrows first List.mem_cons_self) hfirst
  refine hz data ?_ row hrow hcell
  rw [← hdata, List.flatten_cons, List.map_append]
  exact List.mem_append_left _ hmem

def quoting : Writer := ⟨fun _ => true, false, fun _ h => absurd h.symm Bool.false_ne_true⟩

def blankLine : Block where
  datatypes := ["string"]
  group := [false]
  defaults := ["_result", "", ""]
  columns := ["_value"]
  tables := [⟨0, ["x"], [["x\n\ny"]]⟩]
  tables_ne_nil := List.cons_ne_nil _ _
  length_datatypes := rfl
  length_group := rfl
  length_defaults := rfl
  length_key := List.forall_mem_singleton.mpr rfl
  length_row := by decide
  one_line := by decide
  ids := List.pairwise_singleton _ _
  keyed := List.forall_mem_singleton.mpr <| List.forall_mem_singleton.mpr fun i hi => by
    cases i with
    | zero => exact absurd (Option.some_inj.mp hi) Bool.false_ne_true
    | succ i => exact absurd hi nofun

end FluxResponse
end Chronograf
