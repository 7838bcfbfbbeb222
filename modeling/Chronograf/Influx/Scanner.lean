/-
# The scanner of InfluxQL

`influxql/scanner.go` and `influxql/token.go`. The end of the text is read as
the character 0, and so is that character; a carriage return is read as a new
line. Positions are left out, and so are the texts of bad strings.

Key definitions: `Keyword`, `Token`, `scanIdent`, `scanNumber`, `scan`, `scanIgnoreWhitespace`.
Key theorems: `scan_length`, `scan_word`, `scan_quoted_iff`, `scan_literal_iff`.
-/
import Chronograf.Influx.Influxql
import Chronograf.Lib.Quotes
import Mathlib.Data.List.TakeWhile

namespace Chronograf
namespace Influxql

/-! ### Tokens -/

inductive Keyword
  | all | alter | any | «as» | asc | begin | «by» | create | continuous | database | databases | default
  | delete | desc | destinations | diagnostics | distinct | drop | duration | «end» | every | explain
  | field | «for» | «from» | grant | grants | group | groups | «in» | inf | insert | into | key | keys
  | kill | limit | measurement | measurements | name | offset | on | order | password | policy | policies
  | privileges | queries | query | read | replication | resample | retention | revoke | select | series
  | set | «show» | shard | shards | slimit | soffset | stats | subscription | subscriptions | tag | to
  | user | users | values | «where» | «with» | write
  deriving DecidableEq

inductive Token
  | illegal
  | eof
  | ws
  | ident (lit : String)
  | boundParam (lit : String)
  | number (lit : String)
  | integer (lit : String)
  | durationVal (lit : String)
  | string (lit : String)
  /-- `BADSTRING` and `BADESCAPE`. -/
  | badString
  | boolean (val : Bool)
  | op (op : Operator)
  | lparen | rparen | comma | colon | doubleColon | semicolon | dot
  | word (k : Keyword)
  deriving DecidableEq

def keywords : List (String × Token) :=
  [("all", .word .all), ("alter", .word .alter), ("any", .word .any), ("as", .word .«as»), ("asc", .word .asc),
    ("begin", .word .begin), ("by", .word .«by»), ("create", .word .create), ("continuous", .word .continuous),
    ("database", .word .database), ("databases", .word .databases), ("default", .word .default),
    ("delete", .word .delete), ("desc", .word .desc), ("destinations", .word .destinations),
    ("diagnostics", .word .diagnostics), ("distinct", .word .distinct), ("drop", .word .drop),
    ("duration", .word .duration), ("end", .word .«end»), ("every", .word .every), ("explain", .word .explain),
    ("field", .word .field), ("for", .word .«for»), ("from", .word .«from»), ("grant", .word .grant),
    ("grants", .word .grants), ("group", .word .group), ("groups", .word .groups), ("in", .word .«in»),
    ("inf", .word .inf), ("insert", .word .insert), ("into", .word .into), ("key", .word .key),
    ("keys", .word .keys), ("kill", .word .kill), ("limit", .word .limit), ("measurement", .word .measurement),
    ("measurements", .word .measurements), ("name", .word .name), ("offset", .word .offset), ("on", .word .on),
    ("order", .word .order), ("password", .word .password), ("policy", .word .policy),
    ("policies", .word .policies), ("privileges", .word .privileges), ("queries", .word .queries),
    ("query", .word .query), ("read", .word .read), ("replication", .word .replication),
    ("resample", .word .resample), ("retention", .word .retention), ("revoke", .word .revoke),
    ("select", .word .select), ("series", .word .series), ("set", .word .set), ("show", .word .«show»),
    ("shard", .word .shard), ("shards", .word .shards), ("slimit", .word .slimit), ("soffset", .word .soffset),
    ("stats", .word .stats), ("subscription", .word .subscription), ("subscriptions", .word .subscriptions),
    ("tag", .word .tag), ("to", .word .to), ("user", .word .user), ("users", .word .users),
    ("values", .word .values), ("where", .word .«where»), ("with", .word .«with»), ("write", .word .write),
    ("and", .op .and), ("or", .op .or), ("true", .boolean true), ("false", .boolean false)]

/-- The keyword, or an identifier. -/
def lookup (lit : List Char) : Token :=
  match keywords.find? fun k => k.1.toList = lit.map Char.toLower with
  | some k => k.2
  | none => .ident (String.ofList lit)

/-! ### The scanner -/

/-- The end of the text. -/
def eof : Char := Char.ofNat 0

def isWhitespace (ch : Char) : Bool := ch = ' ' || ch = '\t' || ch = '\n' || ch = '\r'

def isLetter (ch : Char) : Bool := ('a' ≤ ch && ch ≤ 'z') || ('A' ≤ ch && ch ≤ 'Z')

def isIdentChar (ch : Char) : Bool := isLetter ch || ch.isDigit || ch = '_'

/-- The escapes of `ScanString`. -/
def unescape : Char → Option Char
  | 'n' => some '\n'
  | '\\' => some '\\'
  | '"' => some '"'
  | '\'' => some '\''
  | _ => none

/-- The end of the text and of a line. -/
def isBreak (ch : Char) : Bool := ch = eof || ch = '\n' || ch = '\r'

/-- A text up to its closing quote; nothing that reads a bad string goes on. -/
def scanString (q : Char) (token : String → Token) (cs : List Char) : Token × List Char :=
  match Quotes.scanString unescape isBreak q cs with
  | some (s, rest) => (token (String.ofList s), rest)
  | none => (.badString, [])

def bareIdent (keyword : Bool) (lit : List Char) : Token :=
  if keyword then lookup lit else .ident (String.ofList lit)

/-- The loop of `scanIdent`, after the bare identifier `lit`; within
`ScanBareIdent` the end of the text is taken, outside it ends the loop. -/
def scanIdent (keyword : Bool) (lit : List Char) (within : Bool) : List Char → Token × List Char
  | [] => (bareIdent keyword lit, [])
  | ch :: cs =>
    if ch = eof then if within then scanIdent keyword lit false cs else (bareIdent keyword lit, cs)
    else if ch = '"' then scanString '"' .ident cs
    else if isIdentChar ch then scanIdent keyword (lit ++ [ch]) true cs
    else (bareIdent keyword lit, ch :: cs)

def scanWhitespace : List Char → Token × List Char
  | [] => (.ws, [])
  | ch :: cs => if ch = eof then (.ws, cs) else if isWhitespace ch then scanWhitespace cs else (.ws, ch :: cs)

def isUnitChar (ch : Char) : Bool := isLetter ch || ch = 'µ' || ch.isDigit

/-- The digits after a point, and the point if there are any. -/
def fraction : List Char → List Char
  | [] => []
  | digits => '.' :: digits

/-- A number after its sign: a duration or an integer if it has no point. -/
def scanNumber (sign : List Char) (cs : List Char) : Token × List Char :=
  let digits := sign ++ cs.takeWhile Char.isDigit
  match cs.dropWhile Char.isDigit with
  | [] => (.integer (String.ofList digits), [])
  | ch :: rest =>
    if ch = '.' then
      (.number (String.ofList (digits ++ fraction (rest.takeWhile Char.isDigit))), rest.dropWhile Char.isDigit)
    else if isLetter ch || ch = 'µ' then
      (.durationVal (String.ofList (digits ++ (ch :: rest).takeWhile isUnitChar)), (ch :: rest).dropWhile isUnitChar)
    else (.integer (String.ofList digits), ch :: rest)

/-- A sign is part of a number if a digit follows, or a point and a digit. -/
def signed (op : Operator) (ch : Char) (cs : List Char) : Token × List Char :=
  match cs with
  | '.' :: ch2 :: _ => if ch2.isDigit then scanNumber [ch] cs else (.op op, cs)
  | ch1 :: _ => if ch1.isDigit then scanNumber [ch] cs else (.op op, cs)
  | [] => (.op op, cs)

/-- The tokens of individual characters, some with the next one. -/
def scanPunctuation (ch : Char) (cs : List Char) : Token × List Char :=
  match ch, cs with
  | '*', _ => (.op .mul, cs)
  | '/', _ => (.op .div, cs)
  | '=', '~' :: cs => (.op .eqRegex, cs)
  | '=', _ => (.op .eq, cs)
  | '!', '=' :: cs => (.op .neq, cs)
  | '!', '~' :: cs => (.op .neqRegex, cs)
  | '>', '=' :: cs => (.op .gte, cs)
  | '>', _ => (.op .gt, cs)
  | '<', '=' :: cs => (.op .lte, cs)
  | '<', '>' :: cs => (.op .neq, cs)
  | '<', _ => (.op .lt, cs)
  | '(', _ => (.lparen, cs)
  | ')', _ => (.rparen, cs)
  | ',', _ => (.comma, cs)
  | ';', _ => (.semicolon, cs)
  | ':', ':' :: cs => (.doubleColon, cs)
  | ':', _ => (.colon, cs)
  | _, _ => (.illegal, cs)

def scan : List Char → Token × List Char
  | [] => (.eof, [])
  | ch :: cs =>
    if isWhitespace ch then scanWhitespace cs
    else if isLetter ch || ch = '_' || ch = '"' then scanIdent true [] false (ch :: cs)
    else if ch.isDigit then scanNumber [] (ch :: cs)
    else if ch = eof then (.eof, cs)
    else if ch = '\'' then scanString '\'' .string cs
    else if ch = '.' then
      match cs with
      | ch1 :: _ => if ch1.isDigit then scanNumber [] (ch :: cs) else (.dot, cs)
      | [] => (.dot, cs)
    else if ch = '$' then
      match scanIdent false [] false cs with
      | (.ident lit, rest) => (.boundParam ("$" ++ lit), rest)
      | r => r
    else if ch = '+' then signed .add ch cs
    else if ch = '-' then signed .sub ch cs
    else scanPunctuation ch cs

def scanIgnoreWhitespace (cs : List Char) : Token × List Char :=
  match scan cs with
  | (.ws, rest) => scan rest
  | r => r

/-! ### What is left -/

section Lengths

variable {q : Char} {token : String → Token} {cs rest : List Char} {t : Token}

theorem length_scanString (q : Char) (token : String → Token) (cs : List Char) :
    (scanString q token cs).2.length ≤ cs.length := by
  rw [scanString]
  split
  · next s rest h => exact Nat.le_of_lt (Quotes.scanString_length h)
  · exact Nat.zero_le _

theorem length_scanIdent {keyword : Bool} : ∀ (lit : List Char) (within : Bool) (cs : List Char),
    (scanIdent keyword lit within cs).2.length ≤ cs.length
  | _, _, [] => Nat.le_refl _
  | lit, within, ch :: cs => by
    rw [scanIdent]
    split_ifs
    · exact Nat.le_succ_of_le (length_scanIdent lit false cs)
    · exact Nat.le_succ _
    · exact Nat.le_succ_of_le (length_scanString '"' .ident cs)
    · exact Nat.le_succ_of_le (length_scanIdent (lit ++ [ch]) true cs)
    · exact Nat.le_refl _

theorem length_scanWhitespace : ∀ cs : List Char, (scanWhitespace cs).2.length ≤ cs.length
  | [] => Nat.le_refl _
  | ch :: cs => by
    rw [scanWhitespace]
    split_ifs
    · exact Nat.le_succ _
    · exact Nat.le_succ_of_le (length_scanWhitespace cs)
    · exact Nat.le_refl _

theorem length_dropWhile_le (p : Char → Bool) (cs : List Char) : (cs.dropWhile p).length ≤ cs.length :=
  (List.dropWhile_suffix p).length_le

theorem length_scanNumber (sign cs : List Char) :
    (scanNumber sign cs).2.length ≤ (cs.dropWhile Char.isDigit).length := by
  rw [scanNumber]
  split
  · exact Nat.zero_le _
  · next ch rest h =>
    rw [h]
    split_ifs
    · exact Nat.le_succ_of_le (length_dropWhile_le _ rest)
    · exact length_dropWhile_le _ (ch :: rest)
    · exact Nat.le_refl _

theorem length_scanNumber_point (sign cs : List Char) : (scanNumber sign ('.' :: cs)).2.length ≤ cs.length :=
  length_dropWhile_le Char.isDigit cs

theorem length_signed (op : Operator) (ch : Char) (cs : List Char) : (signed op ch cs).2.length ≤ cs.length := by
  rw [signed.eq_def]
  split
  · split_ifs
    · exact Nat.le_trans (length_scanNumber _ _) (length_dropWhile_le _ _)
    · exact Nat.le_refl _
  · split_ifs
    · exact Nat.le_trans (length_scanNumber _ _) (length_dropWhile_le _ _)
    · exact Nat.le_refl _
  · exact Nat.le_refl _

theorem length_scanPunctuation (ch : Char) (cs : List Char) : (scanPunctuation ch cs).2.length ≤ cs.length := by
  rw [scanPunctuation.eq_def]
  split <;> first | exact Nat.le_refl _ | exact Nat.le_succ _

theorem length_scanIdent_start {ch : Char} (h : isLetter ch || ch = '_' || ch = '"') {keyword : Bool} :
    (scanIdent keyword [] false (ch :: cs)).2.length ≤ cs.length := by
  rw [scanIdent, if_neg Bool.false_ne_true]
  split_ifs with _ hquote hident
  · exact Nat.le_refl _
  · exact length_scanString '"' .ident cs
  · exact length_scanIdent [ch] true cs
  · simp only [isIdentChar, Bool.or_eq_true, decide_eq_true_eq] at h hident
    tauto

/-- Every token takes something but the end of the text, when nothing is left. -/
theorem length_scan (ch : Char) (cs : List Char) : (scan (ch :: cs)).2.length ≤ cs.length := by
  rw [scan.eq_def]
  dsimp only
  split_ifs with hws hident hdigit heof hquote hdot hdollar
  · exact length_scanWhitespace cs
  · exact length_scanIdent_start hident
  · have hnumber := length_scanNumber [] (ch :: cs)
    rw [List.dropWhile_cons_of_pos hdigit] at hnumber
    exact Nat.le_trans hnumber (length_dropWhile_le _ cs)
  · exact Nat.le_refl _
  · exact length_scanString '\'' .string cs
  · subst hdot
    split
    · split_ifs
      · exact length_scanNumber_point [] _
      · exact Nat.le_refl _
    · exact Nat.le_refl _
  · have hscan : (scanIdent false [] false cs).2.length ≤ cs.length := length_scanIdent [] false cs
    split
    · next lit rest h =>
      rw [h] at hscan
      exact hscan
    · exact hscan
  · exact length_signed _ _ _
  · exact length_signed _ _ _
  · exact length_scanPunctuation _ _

theorem length_scan_le : ∀ cs : List Char, (scan cs).2.length ≤ cs.length
  | [] => Nat.le_refl _
  | ch :: cs => Nat.le_succ_of_le (length_scan ch cs)

theorem length_scanIgnoreWhitespace_le (cs : List Char) : (scanIgnoreWhitespace cs).2.length ≤ cs.length := by
  have hscan := length_scan_le cs
  rw [scanIgnoreWhitespace]
  split
  · next rest h =>
    rw [h] at hscan
    exact Nat.le_trans (length_scan_le rest) hscan
  · exact hscan

/-- A token that is not the end of the text. -/
theorem length_scanIgnoreWhitespace {cs : List Char} (h : (scanIgnoreWhitespace cs).1 ≠ .eof) :
    (scanIgnoreWhitespace cs).2.length < cs.length := by
  cases cs with
  | nil => exact absurd rfl h
  | cons ch cs =>
    have hscan := length_scan ch cs
    rw [List.length_cons, Nat.lt_succ_iff, scanIgnoreWhitespace]
    split
    · next rest hrest =>
      rw [hrest] at hscan
      exact Nat.le_trans (length_scan_le rest) hscan
    · exact hscan

end Lengths

/-! ### What is read -/

section Reading

variable {cs rest : List Char} {w : List Char} {c : Char} {s : String}

/-- A text after which an identifier ends. -/
def Ends (rest : List Char) : Prop := ∀ c ∈ rest.head?, ¬ isIdentChar c ∧ c ≠ '"' ∧ c ≠ eof

theorem scanIdent_word {keyword : Bool} (hrest : Ends rest) : ∀ {w : List Char} (lit : List Char) (within : Bool),
    (∀ c ∈ w, isIdentChar c) → scanIdent keyword lit within (w ++ rest) = (bareIdent keyword (lit ++ w), rest)
  | [], lit, within, _ => by
    rw [List.nil_append, List.append_nil]
    cases rest with
    | nil => rfl
    | cons c rest =>
      obtain ⟨hident, hquote, heof⟩ := hrest c rfl
      rw [scanIdent, if_neg heof, if_neg hquote, if_neg hident]
  | c :: w, lit, within, hw => by
    have hc : isIdentChar c := hw c List.mem_cons_self
    have heof : c ≠ eof := by
      rintro rfl
      exact absurd hc (by decide)
    have hquote : c ≠ '"' := by
      rintro rfl
      exact absurd hc (by decide)
    rw [List.cons_append, scanIdent, if_neg heof, if_neg hquote, if_pos hc,
      scanIdent_word hrest (lit ++ [c]) true fun d hd => hw d (List.mem_cons_of_mem c hd), List.append_assoc,
      List.singleton_append]

theorem isLetter_not_space (h : isLetter c) : ¬ isWhitespace c := by
  intro hspace
  simp only [isWhitespace, Bool.or_eq_true, decide_eq_true_eq] at hspace
  rcases hspace with ((rfl | rfl) | rfl) | rfl <;> exact absurd h (by decide)

/-- A word is a keyword or an identifier. -/
theorem scan_word (hrest : Ends rest) (hc : isLetter c) (hw : ∀ d ∈ w, isIdentChar d) :
    scan (c :: w ++ rest) = (lookup (c :: w), rest) := by
  have hident : ∀ d ∈ c :: w, isIdentChar d :=
    List.forall_mem_cons.mpr ⟨by rw [isIdentChar, hc, Bool.true_or, Bool.true_or], hw⟩
  have hstart : scan (c :: w ++ rest) = scanIdent true [] false (c :: w ++ rest) := by
    rw [List.cons_append, scan.eq_def]
    dsimp only
    rw [if_neg (isLetter_not_space hc), if_pos (by rw [hc, Bool.true_or, Bool.true_or])]
  rw [hstart, scanIdent_word hrest [] false hident]
  rfl

theorem scan_quoted : scan ('"' :: cs) = scanString '"' .ident cs := rfl

theorem scan_literal : scan ('\'' :: cs) = scanString '\'' .string cs := rfl

theorem scanString_eq_iff {q : Char} {token : String → Token} (hq : ∀ d, unescape q = some d → d = q)
    (htoken : ∀ {s s'}, token s = token s' → s = s') (hbad : ∀ s, token s ≠ .badString) :
    scanString q token (s.toList ++ q :: cs) = (token s, rest) ↔ Quotes.Plain isBreak q s.toList ∧ rest = cs := by
  rw [← Quotes.scanString_eq_iff hq, scanString]
  constructor
  · intro h
    split at h
    · next z r hscan =>
      obtain ⟨htok, rfl⟩ := Prod.mk.inj h
      rw [hscan, ← htoken htok, String.toList_ofList]
    · exact absurd (Prod.mk.inj h).1.symm (hbad s)
  · intro h
    rw [h]
    dsimp only
    rw [String.ofList_toList]

theorem scan_quoted_iff : scan ('"' :: (s.toList ++ '"' :: cs)) = (.ident s, rest) ↔
    Quotes.Plain isBreak '"' s.toList ∧ rest = cs :=
  scanString_eq_iff (fun _ h => (Option.some.inj h).symm) Token.ident.inj fun _ => nofun

theorem scan_literal_iff : scan ('\'' :: (s.toList ++ '\'' :: cs)) = (.string s, rest) ↔
    Quotes.Plain isBreak '\'' s.toList ∧ rest = cs :=
  scanString_eq_iff (fun _ h => (Option.some.inj h).symm) Token.string.inj fun _ => nofun

/-- One space before a token. -/
theorem scanIgnoreWhitespace_space (hc : ¬ isWhitespace c) (heof : c ≠ eof) :
    scanIgnoreWhitespace (' ' :: c :: cs) = scan (c :: cs) := by
  have hspace : scan (' ' :: c :: cs) = (.ws, c :: cs) := by
    show scanWhitespace (c :: cs) = _
    rw [scanWhitespace, if_neg heof, if_neg hc]
  rw [scanIgnoreWhitespace, hspace]

/-- A word that is read as this token. -/
def isWord (w : List Char) (t : Token) : Bool :=
  w.head?.any isLetter && w.all isIdentChar && decide (lookup w = t) && decide (t ≠ .ws)

theorem scan_of_isWord {t : Token} (h : isWord w t) (cs : List Char) : scan (w ++ ' ' :: cs) = (t, ' ' :: cs) := by
  have hspace : Ends (' ' :: cs) := by
    rintro c hc
    cases hc
    decide
  simp only [isWord, Bool.and_eq_true, decide_eq_true_eq] at h
  obtain ⟨⟨⟨hhead, hall⟩, rfl⟩, _⟩ := h
  cases w with
  | nil => exact absurd hhead (by decide)
  | cons c w => exact scan_word hspace hhead fun d hd => List.all_eq_true.mp hall d (List.mem_cons_of_mem c hd)

/-- The first word. -/
theorem scanIgnoreWhitespace_word {t : Token} (h : isWord w t) (cs : List Char) :
    scanIgnoreWhitespace (w ++ ' ' :: cs) = (t, ' ' :: cs) := by
  have hws : t ≠ .ws := by
    rw [isWord, Bool.and_eq_true, decide_eq_true_eq] at h
    exact h.2
  rw [scanIgnoreWhitespace, scan_of_isWord h]
  cases t <;> first | rfl | exact absurd rfl hws

/-- A word after another one. -/
theorem scanIgnoreWhitespace_space_word {t : Token} (h : isWord w t) (cs : List Char) :
    scanIgnoreWhitespace (' ' :: (w ++ ' ' :: cs)) = (t, ' ' :: cs) := by
  have hscan := scan_of_isWord h cs
  simp only [isWord, Bool.and_eq_true] at h
  cases w with
  | nil => exact absurd h.1.1.1 (by decide)
  | cons c w =>
    have hc : isLetter c := h.1.1.1
    have heof : c ≠ eof := by
      rintro rfl
      exact absurd hc (by decide)
    rw [List.cons_append, scanIgnoreWhitespace_space (isLetter_not_space hc) heof, ← List.cons_append, hscan]

end Reading

end Influxql
end Chronograf
