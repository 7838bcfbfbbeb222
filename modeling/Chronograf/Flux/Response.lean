/-
# Flux responses

`parseResponse` and `parseTables` of `shared/parsing/flux/response.ts`,
for a reader of comma-separated values, and the annotated form that tables
are written in. The text is cut at blank lines and at the lines
that begin with a number sign before any quotes are looked at.

Key definitions: `parseTables`, `parseResponse`, `Block`, `Writer.response`, `Block.expected`.
-/
import Chronograf.Lib.Chunks
import Chronograf.Lib.Csv
import Chronograf.Lib.Objects

namespace Chronograf
namespace FluxResponse

open Chunks

structure FluxTable where
  name : String
  data : List (List String)
  groupKey : Props String

/-- The index of an array that the name of a property is. -/
def arrayIndex (k : String) : Option ℕ :=
  let n := Nat.ofDigitChars 10 k.toList 0
  if Nat.repr n = k ∧ n < 4294967295 then some n else none

/-- As the name of a property, where a value that is missing is `undefined`. -/
def property (cell : Option String) : String := cell.getD "undefined"

/-! ### Parsing -/

def isAnnotationLine (line : Line) : Bool := line.head? = some '#'

def groupKeyIndices (groupRow : List String) : List ℕ :=
  groupRow.zipIdx.filterMap fun e => if e.1 = "true" then some e.2 else none

def groupKeyOf (headerRow : List String) (indices : List ℕ) (dataRow : Option (List String)) : Props String :=
  indices.foldl (fun acc i => acc.set (property headerRow[i]?) ((dataRow.bind fun row => row[i]?).getD "")) Props.empty

def nameOf (groupKey : Props String) : String :=
  " ".intercalate (((groupKey.ordered arrayIndex).filter fun e => !(["_start", "_stop"].contains e.1)).map fun e => e.1 ++ "=" ++ e.2)

def tableOf (headerRow : List String) (indices : List ℕ) (defaultsRow : Option (List String)) (tableData : List (List String)) : FluxTable :=
  let dataRow := tableData.head?.or defaultsRow
  let groupKey := groupKeyOf headerRow indices dataRow
  ⟨nameOf groupKey, headerRow :: tableData, groupKey⟩

/-- The tables of rows with the same value in the column `table`, grouped in an object. -/
def tablesData (headerRow : List String) (rows : List (List String)) : List (List (List String)) :=
  let tableColIndex := headerRow.findIdx? fun h => h = "table"
  (Props.group (rows.map fun row => (property (tableColIndex.bind fun i => row[i]?), row))).values arrayIndex

/-- An exception is none. -/
def parseTables (parse : List Char → List (List String)) (responseChunk : List Char) : Option (List FluxTable) :=
  let annotationLines := joinLines ((lines responseChunk).filter isAnnotationLine)
  let nonAnnotationLines := joinLines ((lines responseChunk).filter fun line => !isAnnotationLine line)
  if annotationLines = [] then none
  else if nonAnnotationLines = [] then some []
  else do
    let headerRow ← (parse nonAnnotationLines).head?
    let groupRow ← (parse annotationLines).find? fun row => row[0]? = some "#group"
    let defaultsRow := (parse annotationLines).find? fun row => row[0]? = some "#default"
    some ((tablesData headerRow ((parse nonAnnotationLines).drop 1)).map (tableOf headerRow (groupKeyIndices groupRow) defaultsRow))

def parseResponse (parse : List Char → List (List String)) (response : List Char) : Option (List FluxTable) :=
  if trim response = [] then some []
  else ((chunks (trim response)).mapM (parseTables parse)).map List.flatten

/-! ### Tables as they are written -/

structure Table where
  id : ℕ
  /-- A value for each column, of which those of the group are the key. -/
  key : List String
  rows : List (List String)

/-- Tables of one schema, under one header. Annotations have no line breaks, ids increase, and
all rows of a table have the values of its key. -/
structure Block where
  datatypes : List String
  group : List Bool
  defaults : List String
  columns : List String
  tables : List Table
  tables_ne_nil : tables ≠ []
  length_datatypes : datatypes.length = columns.length
  length_group : group.length = columns.length
  length_defaults : defaults.length = columns.length + 2
  length_key : ∀ t ∈ tables, t.key.length = columns.length
  length_row : ∀ t ∈ tables, ∀ row ∈ t.rows, row.length = columns.length
  one_line : ∀ c ∈ datatypes ++ defaults, '\n' ∉ c.toList
  ids : tables.Pairwise fun t t' => t.id < t'.id
  keyed : ∀ t ∈ tables, ∀ row ∈ t.rows, ∀ i : ℕ, group[i]? = some true → row[i]? = t.key[i]?

def Block.annotations (b : Block) : List (List String) :=
  ["#datatype" :: "string" :: "long" :: b.datatypes, "#group" :: "false" :: "false" :: b.group.map fun flag => if flag then "true" else "false",
    "#default" :: b.defaults]

def Block.header (b : Block) : List String := "" :: "result" :: "table" :: b.columns

def Table.cells (t : Table) (row : List String) : List String := "" :: "" :: Nat.repr t.id :: row

def Table.records (t : Table) : List (List String) := t.rows.map t.cells

/-- A choice of fields in quotes: at least those with characters that matter, or white space at their end. -/
structure Writer where
  quoted : String → Bool
  crlf : Bool
  plain : ∀ f, quoted f = false → (∀ c ∈ f.toList, ¬Csv.special c) ∧ ∀ c, f.toList.getLast? = some c → ¬isSpace c

def Writer.field (w : Writer) (f : String) : List Char := if w.quoted f then '"' :: Csv.escape f.toList ++ ['"'] else f.toList

/-- The first field tells annotations, and is not in quotes. -/
def Writer.row (w : Writer) (cells : List String) : List Char := (cells.headD "").toList ++ (cells.drop 1).flatMap fun f => ',' :: w.field f

def Block.rows (b : Block) : List (List String) := b.header :: b.tables.flatMap Table.records

def Writer.eol (w : Writer) : List Char := if w.crlf then ['\r', '\n'] else ['\n']

/-- An empty line between blocks. -/
def Writer.response (w : Writer) (blocks : List Block) : List Char :=
  ([[]].intercalate (blocks.map fun b => (b.annotations ++ b.rows).map w.row)).flatMap fun row => row ++ w.eol

/-- Data and group keys of the tables. -/
def Block.expected (b : Block) : List (List (List String) × Props String) :=
  b.tables.map fun t => (b.header :: t.records, Props.ofList (((b.columns.zip t.key).zip b.group).filterMap fun e => if e.2 then some e.1 else none))

/-- What is read of a response. -/
def ReadBy (parse : List Char → List (List String)) (w : Writer) (blocks : List Block) : Prop :=
  ∃ tables, parseResponse parse (w.response blocks) = some tables ∧
    tables.map (fun table => (table.data, table.groupKey)) = blocks.flatMap Block.expected

/-- All tables have rows, and neither a label nor a value has a line break with a number sign behind it, or
a blank line. Where lines end with a carriage return too, there is one block at most. -/
def Readable (w : Writer) (blocks : List Block) : Prop :=
  (w.crlf = true → blocks.length ≤ 1) ∧ ∀ b ∈ blocks, (∀ label ∈ b.columns, Calm label.toList) ∧
    ∀ t ∈ b.tables, t.rows ≠ [] ∧ ∀ row ∈ t.rows, ∀ value ∈ row, Calm value.toList

end FluxResponse
end Chronograf
