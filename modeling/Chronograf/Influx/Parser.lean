/-
# The parser of InfluxQL

`influxql/parser.go`: a query is a list of statements with semicolons between
them. The statements on users, privileges, databases and retention policies are
parsed as a whole, and a `SELECT` of all fields from one measurement with a
condition and an order. What else there is of the grammar is a parameter:
statements of other kinds and shapes, operands of an expression that are
neither a name, a string nor a boolean, and regular expressions.

Key definitions: `Statement`, `Grammar`, `Grammar.parseExpr`, `Grammar.parseStatement`,
`Grammar.parseQuery`.
Key theorems: `Grammar.parseExpr_leaves`, `Grammar.parseQuery_single`.
-/
import Chronograf.Influx.Durations
import Chronograf.Influx.Permissions
import Chronograf.Influx.Scanner
import Chronograf.Lib.Parsers

namespace Chronograf
namespace Influxql

open Influx (Command Privilege Action)

/-! ### Statements -/

/-- The options of `CREATE RETENTION POLICY`. -/
structure PolicyOptions where
  duration : ℤ
  replication : ℤ
  shardGroupDuration : Option ℤ
  default : Bool

/-- The options of `ALTER RETENTION POLICY`. -/
structure PolicyChanges where
  duration : Option ℤ
  replication : Option ℤ
  shardGroupDuration : Option ℤ
  default : Bool

/-- The options of `CREATE DATABASE … WITH`. -/
structure DatabaseOptions where
  duration : Option ℤ
  replication : Option ℤ
  shardGroupDuration : Option ℤ
  name : Option String

inductive Statement
  | createUser (name password : String) (admin : Bool)
  | dropUser (name : String)
  | setPasswordUser (name password : String)
  /-- `GRANT` and `REVOKE`, on a database or of an administrator. -/
  | access (command : Command)
  | createDatabase (name : String) (options : Option DatabaseOptions)
  | dropDatabase (name : String)
  | createRetentionPolicy (name database : String) (options : PolicyOptions)
  | alterRetentionPolicy (name database : String) (changes : PolicyChanges)
  | dropRetentionPolicy (name database : String)
  | select (statement : SelectStatement)
  | other

/-- The rest of the grammar. -/
structure Grammar where
  /-- A statement of another kind or shape, after its first words. -/
  other : List Keyword → Parser Unit
  operand : Parser Expr
  regex : Parser Expr

/-! ### Tokens -/

/-- `scanIgnoreWhitespace`. -/
def scanToken : Parser Token := Parser.total scanIgnoreWhitespace length_scanIgnoreWhitespace_le

def parseToken (expected : Token) : Parser Unit := do
  if (← scanToken) = expected then pure () else Parser.fail

def parseTokens : List Token → Parser Unit
  | [] => pure ()
  | expected :: ts => do
    parseToken expected
    parseTokens ts

def parseTokenMaybe (expected : Token) : Parser Bool := do
  if (← scanToken.ahead) = expected then do
    let _ ← scanToken
    pure true
  else pure false

/-- What follows a token, if it is there. -/
def parseOptional {α : Type} (expected : Token) (p : Parser α) : Parser (Option α) := do
  if ← parseTokenMaybe expected then do
    let a ← p
    pure (some a)
  else pure none

def parseIdent : Parser String := do
  match ← scanToken with
  | .ident lit => pure lit
  | _ => Parser.fail

def parseString : Parser String := do
  match ← scanToken with
  | .string lit => pure lit
  | _ => Parser.fail

def atoi (lit : String) : ℤ :=
  match lit.toList with
  | '-' :: digits => -(Nat.ofDigitChars 10 digits 0)
  | '+' :: digits => Nat.ofDigitChars 10 digits 0
  | digits => Nat.ofDigitChars 10 digits 0

def parseInt (min max : ℤ) : Parser ℤ := do
  match ← scanToken with
  | .integer lit => if min ≤ atoi lit ∧ atoi lit ≤ max then pure (atoi lit) else Parser.fail
  | _ => Parser.fail

def maxInt32 : ℤ := 2 ^ 31 - 1

def parseDuration : Parser ℤ := do
  match ← scanToken with
  | .durationVal lit =>
    match Influx.parseDuration lit with
    | some d => pure d
    | none => Parser.fail
  | .word .inf => pure 0
  | _ => Parser.fail

/-! ### Users and privileges -/

def parseCreateUserStatement : Parser Statement := do
  let name ← parseIdent
  parseTokens [.word .«with», .word .password]
  let password ← parseString
  let admin ← parseOptional (.word .«with») (parseTokens [.word .all, .word .privileges])
  pure (.createUser name password admin.isSome)

def parseDropUserStatement : Parser Statement := do
  let name ← parseIdent
  pure (.dropUser name)

def parseSetPasswordUserStatement : Parser Statement := do
  parseTokens [.word .password, .word .«for»]
  let name ← parseIdent
  parseToken (.op .eq)
  let password ← parseString
  pure (.setPasswordUser name password)

def parsePrivilege : Parser Privilege := do
  match ← scanToken with
  | .word .read => pure .read
  | .word .write => pure .write
  | .word .all => do
    let _ ← parseTokenMaybe (.word .privileges)
    pure .all
  | _ => Parser.fail

/-- `parseGrantStatement` and `parseRevokeStatement`. -/
def parseAccessStatement (action : Action) (preposition : Keyword) : Parser Statement := do
  let priv ← parsePrivilege
  let t ← scanToken
  if t = .word .on then do
    let on ← parseIdent
    parseToken (.word preposition)
    let user ← parseIdent
    pure (.access ⟨action, priv, some on, user⟩)
  else if t = .word preposition ∧ priv = .all then do
    let user ← parseIdent
    pure (.access ⟨action, priv, none, user⟩)
  else Parser.fail

def parseGrantStatement : Parser Statement := parseAccessStatement .grant .to

def parseRevokeStatement : Parser Statement := parseAccessStatement .revoke .«from»

/-! ### Databases and retention policies -/

def parseDatabaseOptions : Parser DatabaseOptions := do
  let t ← scanToken.ahead
  if t = .word .duration ∨ t = .word .name ∨ t = .word .replication ∨ t = .word .shard then do
    let duration ← parseOptional (.word .duration) parseDuration
    let replication ← parseOptional (.word .replication) (parseInt 1 maxInt32)
    let shardGroupDuration ← parseOptional (.word .shard) do
      parseToken (.word .duration)
      parseDuration
    let name ← parseOptional (.word .name) parseIdent
    pure ⟨duration, replication, shardGroupDuration, name⟩
  else Parser.fail

def parseCreateDatabaseStatement : Parser Statement := do
  let name ← parseIdent
  let options ← parseOptional (.word .«with») parseDatabaseOptions
  pure (.createDatabase name options)

def parseDropDatabaseStatement : Parser Statement := do
  let name ← parseIdent
  pure (.dropDatabase name)

def parsePolicyOptions : Parser PolicyOptions := do
  parseToken (.word .duration)
  let duration ← parseDuration
  parseToken (.word .replication)
  let replication ← parseInt 1 maxInt32
  let shardGroupDuration ← parseOptional (.word .shard) do
    parseToken (.word .duration)
    parseDuration
  let default ← parseTokenMaybe (.word .default)
  pure ⟨duration, replication, shardGroupDuration, default⟩

def parseCreateRetentionPolicyStatement : Parser Statement := do
  let name ← parseIdent
  parseToken (.word .on)
  let database ← parseIdent
  let options ← parsePolicyOptions
  pure (.createRetentionPolicy name database options)

/-- An option of `ALTER RETENTION POLICY`, of which each is given once at most, or the end of them. -/
def parsePolicyChange (s : List Token × PolicyChanges) : Parser (List Token × PolicyChanges ⊕ PolicyChanges) := do
  let t ← scanToken.ahead
  if t ∈ s.1 then Parser.fail
  else match t with
  | .word .duration => do
    let _ ← scanToken
    let d ← parseDuration
    pure (.inl (t :: s.1, { s.2 with duration := some d }))
  | .word .replication => do
    let _ ← scanToken
    let n ← parseInt 1 maxInt32
    pure (.inl (t :: s.1, { s.2 with replication := some n }))
  | .word .shard => do
    let _ ← scanToken
    parseToken (.word .duration)
    let d ← parseDuration
    pure (.inl (t :: s.1, { s.2 with shardGroupDuration := some d }))
  | .word .default => do
    let _ ← scanToken
    pure (.inl (t :: s.1, { s.2 with default := true }))
  | _ => if s.1 = [] then Parser.fail else pure (.inr s.2)

def parsePolicyChanges : Parser PolicyChanges :=
  Parser.iterate parsePolicyChange ([], ⟨none, none, none, false⟩)

def parsePolicyName : Parser String := do
  match ← scanToken with
  | .word .default => pure "default"
  | .ident lit => pure lit
  | _ => Parser.fail

def parseAlterRetentionPolicyStatement : Parser Statement := do
  let name ← parsePolicyName
  parseToken (.word .on)
  let database ← parseIdent
  let changes ← parsePolicyChanges
  pure (.alterRetentionPolicy name database changes)

def parseDropRetentionPolicyStatement : Parser Statement := do
  let name ← parseIdent
  parseToken (.word .on)
  let database ← parseIdent
  pure (.dropRetentionPolicy name database)

/-! ### Expressions and SELECT -/

def Operator.precedence : Operator → ℕ
  | or => 1
  | and => 2
  | eq | neq | eqRegex | neqRegex | lt | lte | gt | gte => 3
  | add | sub => 4
  | mul | div => 5

/-- The expression with one more operator and operand: on its right side, below
the operators that bind less. -/
def Expr.insert (op : Operator) (rhs : Expr) : Expr → Expr
  | binary op' l r =>
    if op'.precedence ≥ op.precedence then binary op (binary op' l r) rhs else binary op' l (insert op rhs r)
  | e => binary op e rhs

namespace Grammar

variable (g : Grammar)

/-- A name is one unless the next token makes it a call, a segment of a longer name or a typed one. -/
def parseVarRef (lit : String) : Parser Expr := do
  let _ ← scanToken
  match ← (Parser.total scan length_scan_le).ahead with
  | .lparen | .dot | .doubleColon => Parser.fail
  | _ => pure (.varRef lit .unknown)

def parseUnaryExpr : Parser Expr := do
  match ← scanToken.ahead with
  | .ident lit => (parseVarRef lit).orElse g.operand
  | .string lit => do
    let _ ← scanToken
    pure (.string lit)
  | .boolean b => do
    let _ ← scanToken
    pure (.boolean b)
  | .lparen | .number _ | .integer _ | .durationVal _ | .op .mul | .boundParam _ | .word .distinct => g.operand
  | _ => Parser.fail

/-- The right side of a regular expression operator is one. -/
def parseRhs (op : Operator) : Parser Expr := if op = .eqRegex ∨ op = .neqRegex then g.regex else g.parseUnaryExpr

def parseOperator (e : Expr) : Parser (Expr ⊕ Expr) := do
  match ← scanToken.ahead with
  | .op op => do
    let _ ← scanToken
    let rhs ← g.parseRhs op
    pure (.inl (Expr.insert op rhs e))
  | _ => pure (.inr e)

def parseExpr : Parser Expr := do
  let e ← g.parseUnaryExpr
  Parser.iterate g.parseOperator e

def parseOrderBy : Parser (List SortField) := do
  if ← parseTokenMaybe (.word .order) then do
    parseToken (.word .«by»)
    let name ← parseIdent
    let descending ← parseTokenMaybe (.word .desc)
    if name = "time" then pure [⟨name, !descending⟩] else Parser.fail
  else pure []

/-- A condition and what comes after it, up to the end of the statement. -/
def parseSelectWhere (source : String) : Parser Statement := do
  let condition ← g.parseExpr
  let sortFields ← parseOrderBy
  let t ← scanToken.ahead
  if t = .eof ∨ t = .semicolon then
    pure (.select ⟨[⟨.wildcard .any, ""⟩], [⟨"", "", source, none⟩], some condition, [], .null, sortFields, 0, 0, 0, 0⟩)
  else Parser.fail

/-- `SELECT * FROM … WHERE …`. -/
def parseSelectAll : Parser Statement := do
  parseToken (.op .mul)
  parseToken (.word .«from»)
  let source ← parseIdent
  parseToken (.word .«where»)
  g.parseSelectWhere source

def parseOther (words : List Keyword) : Parser Statement := do
  g.other words
  pure .other

def parseSelectStatement : Parser Statement := g.parseSelectAll.orElse (g.parseOther [.select])

/-! ### Queries -/

def parseCreateStatement : Parser Statement := do
  match ← scanToken with
  | .word .continuous => g.parseOther [.create, .continuous]
  | .word .database => parseCreateDatabaseStatement
  | .word .user => parseCreateUserStatement
  | .word .retention => do
    parseToken (.word .policy)
    parseCreateRetentionPolicyStatement
  | .word .subscription => g.parseOther [.create, .subscription]
  | _ => Parser.fail

def parseDropStatement : Parser Statement := do
  match ← scanToken with
  | .word .database => parseDropDatabaseStatement
  | .word .retention => do
    parseToken (.word .policy)
    parseDropRetentionPolicyStatement
  | .word .user => parseDropUserStatement
  | .word .continuous => g.parseOther [.drop, .continuous]
  | .word .measurement => g.parseOther [.drop, .measurement]
  | .word .series => g.parseOther [.drop, .series]
  | .word .shard => g.parseOther [.drop, .shard]
  | .word .subscription => g.parseOther [.drop, .subscription]
  | _ => Parser.fail

def parseAlterStatement : Parser Statement := do
  parseToken (.word .retention)
  parseToken (.word .policy)
  parseAlterRetentionPolicyStatement

def parseStatement : Parser Statement := do
  match ← scanToken with
  | .word .select => g.parseSelectStatement
  | .word .delete => g.parseOther [.delete]
  | .word .«show» => g.parseOther [.«show»]
  | .word .create => g.parseCreateStatement
  | .word .drop => g.parseDropStatement
  | .word .grant => parseGrantStatement
  | .word .revoke => parseRevokeStatement
  | .word .alter => parseAlterStatement
  | .word .set => parseSetPasswordUserStatement
  | .word .kill => g.parseOther [.kill]
  | _ => Parser.fail

/-- A turn of the loop of `ParseQuery`: whether a statement may follow, and the statements so far. -/
def parseNext (s : Bool × List Statement) : Parser (Bool × List Statement ⊕ List Statement) := do
  match ← scanToken.ahead with
  | .eof => pure (.inr s.2)
  | .semicolon => do
    let _ ← scanToken
    pure (.inl (true, s.2))
  | _ =>
    if s.1 then do
      let statement ← g.parseStatement
      pure (.inl (false, s.2 ++ [statement]))
    else Parser.fail

def parseQuery (query : String) : Option (List Statement) :=
  ((Parser.iterate g.parseNext (true, [])).run query.toList).map Prod.fst

end Grammar

/-! ### Tokens that are read -/

section Tokens

variable {α : Type} {cs rest mid : List Char} {t : Token} {s : String} {r : α × List Char}

theorem run_scanToken (cs : List Char) : scanToken.run cs = some (scanIgnoreWhitespace cs) := rfl

theorem run_scanToken_ahead (cs : List Char) : scanToken.ahead.run cs = some ((scanIgnoreWhitespace cs).1, cs) := rfl

theorem run_scanToken_bind (f : Token → Parser α) (cs : List Char) :
    (scanToken >>= f).run cs = (f (scanIgnoreWhitespace cs).1).run (scanIgnoreWhitespace cs).2 := rfl

theorem run_ahead_bind (f : Token → Parser α) (cs : List Char) :
    (scanToken.ahead >>= f).run cs = (f (scanIgnoreWhitespace cs).1).run cs := rfl

theorem parseToken_of_eq (h : scanIgnoreWhitespace cs = (t, rest)) : (parseToken t).run cs = some ((), rest) := by
  rw [parseToken, run_scanToken_bind, h, if_pos rfl, Parser.run_pure]

theorem parseTokens_cons {ts : List Token} (h : scanIgnoreWhitespace cs = (t, mid)) :
    (parseTokens (t :: ts)).run cs = (parseTokens ts).run mid := by
  rw [parseTokens, Parser.run_bind_of_some (parseToken_of_eq h)]

theorem parseTokenMaybe_of_eq (h : scanIgnoreWhitespace cs = (t, rest)) : (parseTokenMaybe t).run cs = some (true, rest) := by
  rw [parseTokenMaybe, run_ahead_bind, h, if_pos rfl, run_scanToken_bind, h, Parser.run_pure]

theorem parseTokenMaybe_of_ne (h : (scanIgnoreWhitespace cs).1 ≠ t) : (parseTokenMaybe t).run cs = some (false, cs) := by
  rw [parseTokenMaybe, run_ahead_bind, if_neg h, Parser.run_pure]

theorem parseIdent_eq_some : parseIdent.run cs = some (s, rest) ↔ scanIgnoreWhitespace cs = (.ident s, rest) := by
  rw [parseIdent, run_scanToken_bind]
  obtain ⟨t, mid⟩ := scanIgnoreWhitespace cs
  cases t <;> simp [Parser.run_pure, Parser.fail]

theorem parseString_eq_some : parseString.run cs = some (s, rest) ↔ scanIgnoreWhitespace cs = (.string s, rest) := by
  rw [parseString, run_scanToken_bind]
  obtain ⟨t, mid⟩ := scanIgnoreWhitespace cs
  cases t <;> simp [Parser.run_pure, Parser.fail]

/-- A quoted name that is part of what is parsed is read if and only if it means itself. -/
theorem run_ident_bind {K : String → Parser α} {φ : α → Option String} {a : α} (hK : ∀ v, (K v).Yields (φ · = some v))
    (ha : φ a = some s) : (parseIdent >>= K).run (' ' :: '"' :: (s.toList ++ '"' :: cs)) = some (a, rest) ↔
      Quotes.Plain isBreak '"' s.toList ∧ (K s).run cs = some (a, rest) := by
  rw [Parser.run_bind_eq_some]
  constructor
  · rintro ⟨v, mid, hident, hrest⟩
    obtain rfl : v = s := Option.some.inj ((hK v hrest).symm.trans ha)
    rw [parseIdent_eq_some, scanIgnoreWhitespace_space (by decide) (by decide), scan_quoted_iff] at hident
    exact ⟨hident.1, hident.2 ▸ hrest⟩
  · rintro ⟨hplain, hrest⟩
    refine ⟨s, cs, ?_, hrest⟩
    rw [parseIdent_eq_some, scanIgnoreWhitespace_space (by decide) (by decide), scan_quoted_iff]
    exact ⟨hplain, rfl⟩

theorem run_string_bind {K : String → Parser α} {φ : α → Option String} {a : α} (hK : ∀ v, (K v).Yields (φ · = some v))
    (ha : φ a = some s) : (parseString >>= K).run (' ' :: '\'' :: (s.toList ++ '\'' :: cs)) = some (a, rest) ↔
      Quotes.Plain isBreak '\'' s.toList ∧ (K s).run cs = some (a, rest) := by
  rw [Parser.run_bind_eq_some]
  constructor
  · rintro ⟨v, mid, hstring, hrest⟩
    obtain rfl : v = s := Option.some.inj ((hK v hrest).symm.trans ha)
    rw [parseString_eq_some, scanIgnoreWhitespace_space (by decide) (by decide), scan_literal_iff] at hstring
    exact ⟨hstring.1, hstring.2 ▸ hrest⟩
  · rintro ⟨hplain, hrest⟩
    refine ⟨s, cs, ?_, hrest⟩
    rw [parseString_eq_some, scanIgnoreWhitespace_space (by decide) (by decide), scan_literal_iff]
    exact ⟨hplain, rfl⟩

end Tokens

/-! ### Expressions -/

section Expressions

variable {g : Grammar} {e rhs : Expr} {op : Operator} {cs mid rest : List Char}

/-- The operands of an expression, from left to right. -/
def Expr.operands : Expr → List Expr
  | binary _ l r => l.operands ++ r.operands
  | e => [e]

theorem Expr.operands_insert (op : Operator) (rhs : Expr) : ∀ e : Expr,
    (Expr.insert op rhs e).operands = e.operands ++ rhs.operands
  | binary op' l r => by
    rw [insert]
    split_ifs
    · rfl
    · rw [operands, operands_insert op rhs r, operands, List.append_assoc]
  | boolean _ | call _ _ | distinct _ | duration _ | integer _ | number _ | paren _ | regex _ | string _
  | varRef _ _ | wildcard _ => rfl

namespace Grammar

theorem parseUnaryExpr_of_string {s : String} (h : scanIgnoreWhitespace cs = (.string s, rest)) :
    g.parseUnaryExpr.run cs = some (.string s, rest) := by
  rw [parseUnaryExpr, run_ahead_bind, h]
  dsimp only
  rw [run_scanToken_bind, h, Parser.run_pure]

theorem parseUnaryExpr_of_boolean {b : Bool} (h : scanIgnoreWhitespace cs = (.boolean b, rest)) :
    g.parseUnaryExpr.run cs = some (.boolean b, rest) := by
  rw [parseUnaryExpr, run_ahead_bind, h]
  dsimp only
  rw [run_scanToken_bind, h, Parser.run_pure]

/-- A name that no operator is part of. -/
theorem parseUnaryExpr_of_ident {s : String} (h : scanIgnoreWhitespace cs = (.ident s, rest))
    (hnext : (∃ op, (scan rest).1 = .op op) ∨ (scan rest).1 = .ws) :
    g.parseUnaryExpr.run cs = some (.varRef s .unknown, rest) := by
  have hname : (parseVarRef s).run cs = some (.varRef s .unknown, rest) := by
    rw [parseVarRef, run_scanToken_bind, h]
    have hahead : (Parser.total scan length_scan_le).ahead.run rest = some ((scan rest).1, rest) := rfl
    rw [Parser.run_bind_of_some hahead]
    rcases hnext with ⟨op, hop⟩ | hws
    · rw [hop, Parser.run_pure]
    · rw [hws, Parser.run_pure]
  rw [parseUnaryExpr, run_ahead_bind, h]
  exact Parser.run_orElse_of_some hname

theorem parseOperator_of_op (hop : scanIgnoreWhitespace cs = (.op op, mid)) (hregex : op ≠ .eqRegex ∧ op ≠ .neqRegex)
    (hrhs : g.parseUnaryExpr.run mid = some (rhs, rest)) :
    (g.parseOperator e).run cs = some (.inl (Expr.insert op rhs e), rest) := by
  rw [parseOperator, run_ahead_bind, hop]
  dsimp only
  rw [run_scanToken_bind, hop, parseRhs, if_neg (not_or.mpr hregex), Parser.run_bind_of_some hrhs, Parser.run_pure]

theorem parseOperator_of_none (hop : scanIgnoreWhitespace cs = (.op op, mid)) (hregex : op ≠ .eqRegex ∧ op ≠ .neqRegex)
    (hrhs : g.parseUnaryExpr.run mid = none) : (g.parseOperator e).run cs = none := by
  rw [parseOperator, run_ahead_bind, hop]
  dsimp only
  rw [run_scanToken_bind, hop, parseRhs, if_neg (not_or.mpr hregex), Parser.run_bind_of_none hrhs]

theorem parseOperator_stop (h : ∀ op, (scanIgnoreWhitespace cs).1 ≠ .op op) : (g.parseOperator e).run cs = some (.inr e, cs) := by
  rw [parseOperator, run_ahead_bind]
  split
  · next op hop => exact absurd hop (h op)
  · rfl

theorem parseOperator_takes : Parser.Takes g.parseOperator := by
  intro e cs e' rest h
  rw [parseOperator, run_ahead_bind] at h
  split at h
  · next op hop =>
    have hmid : (scanIgnoreWhitespace cs).2.length < cs.length := length_scanIgnoreWhitespace (by rw [hop]; nofun)
    rw [run_scanToken_bind] at h
    exact Nat.lt_of_le_of_lt (Parser.rest_le _ h) hmid
  · cases h

/-- An expression begins with the operands that come first. -/
theorem parseExpr_operands (es : List Expr) (hes : es <+: e.operands)
    (h : (Parser.iterate g.parseOperator e).run cs = some (rhs, rest)) : es <+: rhs.operands := by
  refine Parser.of_run_iterate (I := fun e : Expr => es <+: e.operands) (Q := fun e : Expr => es <+: e.operands) hes ?_ ?_ h
  · intro s cs s' rest hs hrun
    rw [parseOperator, run_ahead_bind] at hrun
    split at hrun
    · rw [run_scanToken_bind] at hrun
      obtain ⟨operand, mid, _, hpure⟩ := Parser.run_bind_eq_some.mp hrun
      cases hpure
      rw [Expr.operands_insert]
      exact hs.trans (List.prefix_append _ _)
    · cases hrun
  · intro s cs a rest hs hrun
    rw [parseOperator, run_ahead_bind] at hrun
    split at hrun
    · rw [run_scanToken_bind] at hrun
      obtain ⟨operand, mid, _, hpure⟩ := Parser.run_bind_eq_some.mp hrun
      cases hpure
    · cases hrun
      exact hs

end Grammar

end Expressions

/-! ### Statements of a query -/

namespace Grammar

variable {g : Grammar} {s : Statement} {ss : List Statement} {semi : Bool} {cs mid rest : List Char} {query : String} {k : Keyword}

theorem parseStatement_create (h : scanIgnoreWhitespace cs = (.word .create, rest)) :
    g.parseStatement.run cs = g.parseCreateStatement.run rest := by
  rw [parseStatement, run_scanToken_bind, h]

theorem parseStatement_drop (h : scanIgnoreWhitespace cs = (.word .drop, rest)) :
    g.parseStatement.run cs = g.parseDropStatement.run rest := by
  rw [parseStatement, run_scanToken_bind, h]

theorem parseStatement_alter (h : scanIgnoreWhitespace cs = (.word .alter, rest)) :
    g.parseStatement.run cs = parseAlterStatement.run rest := by
  rw [parseStatement, run_scanToken_bind, h]

theorem parseStatement_set (h : scanIgnoreWhitespace cs = (.word .set, rest)) :
    g.parseStatement.run cs = parseSetPasswordUserStatement.run rest := by
  rw [parseStatement, run_scanToken_bind, h]

theorem parseStatement_grant (h : scanIgnoreWhitespace cs = (.word .grant, rest)) :
    g.parseStatement.run cs = parseGrantStatement.run rest := by
  rw [parseStatement, run_scanToken_bind, h]

theorem parseStatement_revoke (h : scanIgnoreWhitespace cs = (.word .revoke, rest)) :
    g.parseStatement.run cs = parseRevokeStatement.run rest := by
  rw [parseStatement, run_scanToken_bind, h]

theorem parseStatement_select (h : scanIgnoreWhitespace cs = (.word .select, rest)) :
    g.parseStatement.run cs = g.parseSelectStatement.run rest := by
  rw [parseStatement, run_scanToken_bind, h]

theorem parseCreateStatement_database (h : scanIgnoreWhitespace cs = (.word .database, rest)) :
    g.parseCreateStatement.run cs = parseCreateDatabaseStatement.run rest := by
  rw [parseCreateStatement, run_scanToken_bind, h]

theorem parseCreateStatement_user (h : scanIgnoreWhitespace cs = (.word .user, rest)) :
    g.parseCreateStatement.run cs = parseCreateUserStatement.run rest := by
  rw [parseCreateStatement, run_scanToken_bind, h]

theorem parseDropStatement_database (h : scanIgnoreWhitespace cs = (.word .database, rest)) :
    g.parseDropStatement.run cs = parseDropDatabaseStatement.run rest := by
  rw [parseDropStatement, run_scanToken_bind, h]

theorem parseDropStatement_user (h : scanIgnoreWhitespace cs = (.word .user, rest)) :
    g.parseDropStatement.run cs = parseDropUserStatement.run rest := by
  rw [parseDropStatement, run_scanToken_bind, h]

theorem parseCreateStatement_retention (h : scanIgnoreWhitespace cs = (.word .retention, mid))
    (hpolicy : scanIgnoreWhitespace mid = (.word .policy, rest)) :
    g.parseCreateStatement.run cs = parseCreateRetentionPolicyStatement.run rest := by
  rw [parseCreateStatement, run_scanToken_bind, h]
  exact Parser.run_bind_of_some (parseToken_of_eq hpolicy)

theorem parseDropStatement_retention (h : scanIgnoreWhitespace cs = (.word .retention, mid))
    (hpolicy : scanIgnoreWhitespace mid = (.word .policy, rest)) :
    g.parseDropStatement.run cs = parseDropRetentionPolicyStatement.run rest := by
  rw [parseDropStatement, run_scanToken_bind, h]
  exact Parser.run_bind_of_some (parseToken_of_eq hpolicy)

theorem parseAlterStatement_retention (h : scanIgnoreWhitespace cs = (.word .retention, mid))
    (hpolicy : scanIgnoreWhitespace mid = (.word .policy, rest)) :
    parseAlterStatement.run cs = parseAlterRetentionPolicyStatement.run rest := by
  rw [parseAlterStatement, Parser.run_bind_of_some (parseToken_of_eq h), Parser.run_bind_of_some (parseToken_of_eq hpolicy)]

theorem parseStatement_takes (h : g.parseStatement.run cs = some (s, rest)) : rest.length < cs.length := by
  rw [parseStatement, run_scanToken_bind] at h
  have htoken : (scanIgnoreWhitespace cs).1 ≠ .eof := by
    intro heof
    rw [heof] at h
    cases h
  exact Nat.lt_of_le_of_lt (Parser.rest_le _ h) (length_scanIgnoreWhitespace htoken)

theorem parseNext_takes : Parser.Takes g.parseNext := by
  intro s cs s' rest h
  rw [parseNext, run_ahead_bind] at h
  split at h
  · cases h
  · next hsemi =>
    cases h
    exact length_scanIgnoreWhitespace (by rw [hsemi]; nofun)
  · split at h
    · obtain ⟨statement, mid, hstatement, hpure⟩ := Parser.run_bind_eq_some.mp h
      cases hpure
      exact parseStatement_takes hstatement
    · cases h

/-- What comes after the statements of a query: no other one. -/
def Closed (g : Grammar) (cs : List Char) : Prop := ∃ rest, (Parser.iterate g.parseNext (false, [])).run cs = some ([], rest)

theorem parseNext_append (acc : List Statement) (s : Bool × List Statement) (cs : List Char) :
    (g.parseNext (s.1, acc ++ s.2)).run cs =
      ((g.parseNext s).run cs).map (Prod.map (Sum.map (fun s => (s.1, acc ++ s.2)) (acc ++ ·)) id) := by
  rw [parseNext, parseNext, run_ahead_bind, run_ahead_bind]
  split
  · rfl
  · rfl
  · split_ifs
    · rw [Parser.run_bind, Parser.run_bind]
      cases g.parseStatement.run cs with
      | none => rfl
      | some r =>
        simp only [Option.bind_some, Parser.run_pure, Option.map_some, Prod.map, Sum.map_inl, List.append_assoc, id_eq]
    · rfl

/-- A turn that takes a statement. -/
theorem parseNext_of_word (hword : (scanIgnoreWhitespace cs).1 = .word k) (ss : List Statement) :
    (g.parseNext (true, ss)).run cs = (g.parseStatement.run cs).map fun r => (.inl (false, ss ++ [r.1]), r.2) := by
  rw [parseNext, run_ahead_bind, hword]
  dsimp only
  rw [if_pos rfl, Parser.run_bind]
  cases g.parseStatement.run cs <;> rfl

/-- A query that begins with a word is one statement if it begins with this one
and there is no other one after it. -/
theorem parseQuery_single (hword : (scanIgnoreWhitespace query.toList).1 = .word k) :
    g.parseQuery query = some [s] ↔ ∃ mid, g.parseStatement.run query.toList = some (s, mid) ∧ g.Closed mid := by
  have hfirst : (g.parseNext (true, [])).run query.toList =
      (g.parseStatement.run query.toList).map fun r => (.inl (false, [r.1]), r.2) := parseNext_of_word hword []
  rw [parseQuery]
  cases hrun : g.parseStatement.run query.toList with
  | none =>
    rw [hrun, Option.map_none] at hfirst
    rw [Parser.run_iterate_of_none hfirst]
    exact ⟨(nomatch ·), fun ⟨_, h, _⟩ => nomatch h⟩
  | some r =>
    obtain ⟨s', mid⟩ := r
    rw [hrun, Option.map_some] at hfirst
    have hrest := Parser.run_iterate_map (parseNext_append (g := g) [s']) (false, []) mid
    rw [Parser.run_iterate_of_inl parseNext_takes hfirst, show (false, [s']) = (false, [s'] ++ []) from rfl, hrest,
      Option.map_map, Option.map_eq_some_iff]
    constructor
    · rintro ⟨⟨ss, rest⟩, hclosed, heq⟩
      obtain ⟨rfl, hnil⟩ := List.cons.inj heq
      have hss : ss = [] := hnil
      exact ⟨mid, rfl, rest, hss ▸ hclosed⟩
    · rintro ⟨mid', heq, rest, hclosed⟩
      cases heq
      exact ⟨([], rest), hclosed, rfl⟩

theorem closed_nil : g.Closed [] := ⟨[], Parser.run_iterate_of_inr rfl⟩

end Grammar

end Influxql
end Chronograf
