/-
# The commands of the client

`influx/users.go`, `influx/permissions.go`, `influx/databases.go` and the
command of `influx/annotations.go` that looks for an ID: names are pasted
between double quotes, passwords and IDs between single ones, and the options
of a retention policy as they are. For each command this is when its statement
is parsed with the names and texts that it was given.

Key definitions: `Request`, `Request.command`, `Request.Says`, `Request.Exact`, `Request.Safe`.
Key theorems: `Request.parse_add`, `Request.parse_toInfluxQL`, `Request.parse_get`.
-/
import Chronograf.Influx.AnnotationCommands
import Chronograf.Influx.Parser

namespace Chronograf
namespace Influx
namespace Commands

open Influxql

/-! ### Texts -/

def add (name passwd : String) : String := "CREATE USER \"" ++ name ++ "\" WITH PASSWORD '" ++ passwd ++ "'"

def delete (name : String) : String := "DROP USER \"" ++ name ++ "\""

def updatePassword (name passwd : String) : String := "SET PASSWORD for \"" ++ name ++ "\" = '" ++ passwd ++ "'"

def privilegeText : Privilege → String
  | .none => "NO PRIVILEGES"
  | .read => "READ"
  | .write => "WRITE"
  | .all => "ALL"

/-- `ToInfluxQL`; the empty text is no command. -/
def toInfluxQL (action preposition username : String) (perm : Permission) : String :=
  if perm.scope = allScope then action ++ " ALL PRIVILEGES " ++ preposition ++ " \"" ++ username ++ "\""
  else if perm.allowed.length = 0 then
    action ++ " ALL PRIVILEGES ON \"" ++ perm.name ++ "\" " ++ preposition ++ " \"" ++ username ++ "\""
  else if toPriv perm.allowed = .none then ""
  else action ++ " " ++ privilegeText (toPriv perm.allowed) ++ " ON \"" ++ perm.name ++ "\" " ++ preposition ++ " \"" ++
    username ++ "\""

def actionText : Action → String
  | .grant => "GRANT"
  | .revoke => "REVOKE"

def prepositionText : Action → String
  | .grant => "TO"
  | .revoke => "FROM"

def toRevoke (username : String) (perm : Permission) : String := toInfluxQL "REVOKE" "FROM" username perm

def toGrant (username : String) (perm : Permission) : String :=
  if perm.allowed.length = 0 then "" else toInfluxQL "GRANT" "TO" username perm

def createDB (name : String) : String := "CREATE DATABASE \"" ++ name ++ "\""

def dropDB (db : String) : String := "DROP DATABASE \"" ++ db ++ "\""

structure RetentionPolicy where
  name : String
  duration : String
  replication : ℤ
  shardDuration : String
  default : Bool

def defaultText (default : Bool) : String := if default then " DEFAULT" else ""

def createRP (db : String) (rp : RetentionPolicy) : String :=
  let query := "CREATE RETENTION POLICY \"" ++ rp.name ++ "\" ON \"" ++ db ++ "\" DURATION " ++ rp.duration ++
    " REPLICATION " ++ rp.replication.repr
  let query := if rp.shardDuration.length ≠ 0 then query ++ " SHARD DURATION " ++ rp.shardDuration else query
  query ++ defaultText rp.default

def updateRP (db rp : String) (upd : RetentionPolicy) : String :=
  "ALTER RETENTION POLICY \"" ++ rp ++ "\" ON \"" ++ db ++ "\"" ++
    (if upd.duration.length > 0 then " DURATION " ++ upd.duration else "") ++
    (if upd.replication > 0 then " REPLICATION " ++ upd.replication.repr else "") ++
    (if upd.shardDuration.length > 0 then " SHARD DURATION " ++ upd.shardDuration else "") ++ defaultText upd.default

def dropRP (db rp : String) : String := "DROP RETENTION POLICY \"" ++ rp ++ "\" ON \"" ++ db ++ "\""

/-- The options as they are pasted. -/
def createOptions (rp : RetentionPolicy) : String :=
  " DURATION " ++ rp.duration ++ " REPLICATION " ++ rp.replication.repr ++
    (if rp.shardDuration.length ≠ 0 then " SHARD DURATION " ++ rp.shardDuration else "") ++ defaultText rp.default

def updateOptions (upd : RetentionPolicy) : String :=
  (if upd.duration.length > 0 then " DURATION " ++ upd.duration else "") ++
    (if upd.replication > 0 then " REPLICATION " ++ upd.replication.repr else "") ++
    (if upd.shardDuration.length > 0 then " SHARD DURATION " ++ upd.shardDuration else "") ++ defaultText upd.default

end Commands

/-! ### Requests -/

/-- The calls of the client that send a command. -/
inductive Request
  | add (name passwd : String)
  | delete (name : String)
  | updatePassword (name passwd : String)
  | grantPermission (username : String) (perm : Permission)
  | revokePermission (username : String) (perm : Permission)
  | createDB (name : String)
  | dropDB (db : String)
  | createRP (db : String) (rp : Commands.RetentionPolicy)
  | updateRP (db rp : String) (upd : Commands.RetentionPolicy)
  | dropRP (db rp : String)
  | get (id : String)

namespace Request

open Influxql Grammar

/-- What is sent; no command is empty. -/
def command : Request → String
  | add name passwd => Commands.add name passwd
  | delete name => Commands.delete name
  | updatePassword name passwd => Commands.updatePassword name passwd
  | grantPermission username perm => Commands.toGrant username perm
  | revokePermission username perm => Commands.toRevoke username perm
  | createDB name => Commands.createDB name
  | dropDB db => Commands.dropDB db
  | createRP db rp => Commands.createRP db rp
  | updateRP db rp upd => Commands.updateRP db rp upd
  | dropRP db rp => Commands.dropRP db rp
  | get id => Annotations.getAnnotationID id

/-- The annotations with an ID that are not deleted, the latest first. -/
def annotationStatement (id : String) : SelectStatement where
  fields := [⟨.wildcard .any, ""⟩]
  sources := [⟨"", "", "annotations", none⟩]
  condition := some (.binary .and (.binary .eq (.varRef "id" .unknown) (.string id))
    (.binary .eq (.varRef "deleted" .unknown) (.boolean false)))
  dimensions := []
  fill := .null
  sortFields := [⟨"time", false⟩]
  limit := 0
  offset := 0
  slimit := 0
  soffset := 0

/-- The statement is of the kind that the call is for, with the names and texts it is given. -/
def Says : Request → Influxql.Statement → Prop
  | add name passwd, s => s = .createUser name passwd false
  | delete name, s => s = .dropUser name
  | updatePassword name passwd, s => s = .setPasswordUser name passwd
  | grantPermission username perm, s => ∃ c, toGrant username perm = some c ∧ s = .access c
  | revokePermission username perm, s => ∃ c, toRevoke username perm = some c ∧ s = .access c
  | createDB name, s => s = .createDatabase name none
  | dropDB db, s => s = .dropDatabase db
  | createRP db rp, s => ∃ options, s = .createRetentionPolicy rp.name db options
  | updateRP db rp _, s => ∃ changes, s = .alterRetentionPolicy rp db changes
  | dropRP db rp, s => s = .dropRetentionPolicy rp db
  | get id, s => s = .select (annotationStatement id)

/-- What is sent is exactly one statement, and it says what the call is for. -/
def Exact (g : Grammar) (r : Request) : Prop := r.command ≠ "" → ∃ s, g.parseQuery r.command = some [s] ∧ r.Says s

/-! ### When it is -/

/-- A name that means itself between double quotes. -/
def Name (s : String) : Prop := Quotes.Plain isBreak '"' s.toList

/-- A text that means itself between single quotes. -/
def Text (s : String) : Prop := Quotes.Plain isBreak '\'' s.toList

def SafeAccess (command : Option Command) : Prop := ∀ c ∈ command, (∀ db ∈ c.on, Name db) ∧ Name c.user

/-- Options, and nothing but semicolons after them. -/
def Reads {α : Type} (g : Grammar) (p : Parser α) (options : String) : Prop :=
  ∃ a mid, p.run options.toList = some (a, mid) ∧ g.Closed mid

def Safe (g : Grammar) : Request → Prop
  | add name passwd => Name name ∧ Text passwd
  | delete name => Name name
  | updatePassword name passwd => Name name ∧ Text passwd
  | grantPermission username perm => SafeAccess (toGrant username perm)
  | revokePermission username perm => SafeAccess (toRevoke username perm)
  | createDB name => Name name
  | dropDB db => Name db
  | createRP db rp => Name rp.name ∧ Name db ∧ Reads g parsePolicyOptions (Commands.createOptions rp)
  | updateRP db rp upd => Name rp ∧ Name db ∧ Reads g parsePolicyChanges (Commands.updateOptions upd)
  | dropRP db rp => Name rp ∧ Name db
  | get id => Text id

variable {g : Grammar} {s : Influxql.Statement} {cs mid rest : List Char}

/-- The names and texts of a statement in the order they stand. -/
def texts : Influxql.Statement → List String
  | .createUser name password _ => [name, password]
  | .dropUser name => [name]
  | .setPasswordUser name password => [name, password]
  | .access c => c.on.toList ++ [c.user]
  | .createDatabase name _ => [name]
  | .dropDatabase name => [name]
  | .createRetentionPolicy name database _ => [name, database]
  | .alterRetentionPolicy name database _ => [name, database]
  | .dropRetentionPolicy name database => [name, database]
  | .select _ => []
  | .other => []

open Parser (yields_bind yields_pure)

/-- A name or text of a statement. -/
def textAt (i : ℕ) (s : Influxql.Statement) : Option String := (texts s)[i]?

theorem some_nil_iff : some (s, ([] : List Char)) = some (s, rest) ↔ rest = [] := by
  rw [Option.some_inj, Prod.mk.injEq, eq_self, true_and, eq_comm]

/-! ### The words of the commands -/

theorem isWord_create : isWord "CREATE".toList (.word .create) := rfl

theorem isWord_drop : isWord "DROP".toList (.word .drop) := rfl

theorem isWord_user : isWord "USER".toList (.word .user) := rfl

theorem isWord_database : isWord "DATABASE".toList (.word .database) := rfl

theorem isWord_password : isWord "PASSWORD".toList (.word .password) := rfl

theorem isWord_retention : isWord "RETENTION".toList (.word .retention) := rfl

theorem isWord_policy : isWord "POLICY".toList (.word .policy) := rfl

theorem isWord_on : isWord "ON".toList (.word .on) := rfl

theorem isWord_all : isWord "ALL".toList (.word .all) := rfl

theorem run_create_user (cs : List Char) :
    g.parseStatement.run ("CREATE USER".toList ++ ' ' :: cs) = parseCreateUserStatement.run (' ' :: cs) := by
  show g.parseStatement.run ("CREATE".toList ++ ' ' :: ("USER".toList ++ ' ' :: cs)) = _
  rw [parseStatement_create (scanIgnoreWhitespace_word isWord_create _),
    parseCreateStatement_user (scanIgnoreWhitespace_space_word isWord_user _)]

theorem run_drop_user (cs : List Char) :
    g.parseStatement.run ("DROP USER".toList ++ ' ' :: cs) = parseDropUserStatement.run (' ' :: cs) := by
  show g.parseStatement.run ("DROP".toList ++ ' ' :: ("USER".toList ++ ' ' :: cs)) = _
  rw [parseStatement_drop (scanIgnoreWhitespace_word isWord_drop _),
    parseDropStatement_user (scanIgnoreWhitespace_space_word isWord_user _)]

theorem run_create_database (cs : List Char) :
    g.parseStatement.run ("CREATE DATABASE".toList ++ ' ' :: cs) = parseCreateDatabaseStatement.run (' ' :: cs) := by
  show g.parseStatement.run ("CREATE".toList ++ ' ' :: ("DATABASE".toList ++ ' ' :: cs)) = _
  rw [parseStatement_create (scanIgnoreWhitespace_word isWord_create _),
    parseCreateStatement_database (scanIgnoreWhitespace_space_word isWord_database _)]

theorem run_drop_database (cs : List Char) :
    g.parseStatement.run ("DROP DATABASE".toList ++ ' ' :: cs) = parseDropDatabaseStatement.run (' ' :: cs) := by
  show g.parseStatement.run ("DROP".toList ++ ' ' :: ("DATABASE".toList ++ ' ' :: cs)) = _
  rw [parseStatement_drop (scanIgnoreWhitespace_word isWord_drop _),
    parseDropStatement_database (scanIgnoreWhitespace_space_word isWord_database _)]

theorem run_create_policy (cs : List Char) :
    g.parseStatement.run ("CREATE RETENTION POLICY".toList ++ ' ' :: cs) = parseCreateRetentionPolicyStatement.run (' ' :: cs) := by
  show g.parseStatement.run ("CREATE".toList ++ ' ' :: ("RETENTION".toList ++ ' ' :: ("POLICY".toList ++ ' ' :: cs))) = _
  rw [parseStatement_create (scanIgnoreWhitespace_word isWord_create _),
    parseCreateStatement_retention (scanIgnoreWhitespace_space_word isWord_retention _) (scanIgnoreWhitespace_space_word isWord_policy _)]

theorem run_alter_policy (cs : List Char) :
    g.parseStatement.run ("ALTER RETENTION POLICY".toList ++ ' ' :: cs) = parseAlterRetentionPolicyStatement.run (' ' :: cs) := by
  have halter : isWord "ALTER".toList (.word .alter) := rfl
  show g.parseStatement.run ("ALTER".toList ++ ' ' :: ("RETENTION".toList ++ ' ' :: ("POLICY".toList ++ ' ' :: cs))) = _
  rw [parseStatement_alter (scanIgnoreWhitespace_word halter _),
    parseAlterStatement_retention (scanIgnoreWhitespace_space_word isWord_retention _) (scanIgnoreWhitespace_space_word isWord_policy _)]

theorem run_drop_policy (cs : List Char) :
    g.parseStatement.run ("DROP RETENTION POLICY".toList ++ ' ' :: cs) = parseDropRetentionPolicyStatement.run (' ' :: cs) := by
  show g.parseStatement.run ("DROP".toList ++ ' ' :: ("RETENTION".toList ++ ' ' :: ("POLICY".toList ++ ' ' :: cs))) = _
  rw [parseStatement_drop (scanIgnoreWhitespace_word isWord_drop _),
    parseDropStatement_retention (scanIgnoreWhitespace_space_word isWord_retention _) (scanIgnoreWhitespace_space_word isWord_policy _)]

theorem run_password_for (cs : List Char) :
    (parseTokens [.word .password, .word .«for»]).run (" PASSWORD for".toList ++ ' ' :: cs) = some ((), ' ' :: cs) := by
  have hfor : isWord "for".toList (.word .«for») := rfl
  show (parseTokens _).run (' ' :: ("PASSWORD".toList ++ ' ' :: ("for".toList ++ ' ' :: cs))) = _
  rw [parseTokens_cons (scanIgnoreWhitespace_space_word isWord_password _), parseTokens_cons (scanIgnoreWhitespace_space_word hfor _)]
  rfl

theorem run_with_password (cs : List Char) :
    (parseTokens [.word .«with», .word .password]).run (" WITH PASSWORD".toList ++ ' ' :: cs) = some ((), ' ' :: cs) := by
  have hwith : isWord "WITH".toList (.word .«with») := rfl
  show (parseTokens _).run (' ' :: ("WITH".toList ++ ' ' :: ("PASSWORD".toList ++ ' ' :: cs))) = _
  rw [parseTokens_cons (scanIgnoreWhitespace_space_word hwith _),
    parseTokens_cons (scanIgnoreWhitespace_space_word isWord_password _)]
  rfl

theorem run_eq (cs : List Char) : (parseToken (.op .eq)).run (" =".toList ++ ' ' :: cs) = some ((), ' ' :: cs) :=
  parseToken_of_eq rfl

theorem run_on (cs : List Char) : (parseToken (.word .on)).run (" ON".toList ++ ' ' :: cs) = some ((), ' ' :: cs) :=
  parseToken_of_eq (scanIgnoreWhitespace_space_word isWord_on cs)

/-! ### Users -/

theorem toList_add (name passwd : String) : (Commands.add name passwd).toList = "CREATE USER".toList ++
      ' ' :: '"' :: (name.toList ++ '"' :: (" WITH PASSWORD".toList ++ ' ' :: '\'' :: (passwd.toList ++ ['\'']))) := by
  delta Commands.add
  simp only [String.toList_append, List.append_assoc, String.reduceToList, List.cons_append, List.nil_append]

theorem parse_add (name passwd : String) : g.parseStatement.run (Commands.add name passwd).toList =
      some (.createUser name passwd false, rest) ↔ (Name name ∧ Text passwd) ∧ rest = [] := by
  rw [toList_add, run_create_user, parseCreateUserStatement, run_ident_bind (φ := textAt 0),
    Parser.run_bind_of_some (run_with_password _), run_string_bind (φ := textAt 1), and_assoc]
  · exact and_congr_right fun _ => and_congr_right fun _ => some_nil_iff
  · exact fun _ => yields_bind fun _ => yields_pure rfl
  · rfl
  · exact fun _ => yields_bind fun _ => yields_bind fun _ => yields_bind fun _ => yields_pure rfl
  · rfl

theorem toList_updatePassword (name passwd : String) : (Commands.updatePassword name passwd).toList = "SET".toList ++ ' ' :: ("PASSWORD for".toList ++
      ' ' :: '"' :: (name.toList ++ '"' :: (" =".toList ++ ' ' :: '\'' :: (passwd.toList ++ ['\''])))) := by
  delta Commands.updatePassword
  simp only [String.toList_append, List.append_assoc, String.reduceToList, List.cons_append, List.nil_append]

theorem parse_updatePassword (name passwd : String) : g.parseStatement.run (Commands.updatePassword name passwd).toList =
      some (.setPasswordUser name passwd, rest) ↔ (Name name ∧ Text passwd) ∧ rest = [] := by
  have hset : isWord "SET".toList (.word .set) := rfl
  have hwords : ∀ cs, ' ' :: ("PASSWORD for".toList ++ cs) = " PASSWORD for".toList ++ cs := fun _ => rfl
  rw [toList_updatePassword, parseStatement_set (scanIgnoreWhitespace_word hset _), hwords, parseSetPasswordUserStatement,
    Parser.run_bind_of_some (run_password_for _), run_ident_bind (φ := textAt 0), Parser.run_bind_of_some (run_eq _),
    run_string_bind (φ := textAt 1), and_assoc]
  · exact and_congr_right fun _ => and_congr_right fun _ => some_nil_iff
  · exact fun _ => yields_pure rfl
  · rfl
  · exact fun _ => yields_bind fun _ => yields_bind fun _ => yields_pure rfl
  · rfl

/-- A command that ends with its only name. -/
theorem run_last_name {K : String → Influxql.Statement} {name : String} (hK : ∀ v, textAt 0 (K v) = some v) :
    (parseIdent >>= fun v => pure (K v)).run (' ' :: '"' :: (name.toList ++ ['"'])) = some (K name, rest) ↔
      Name name ∧ rest = [] := by
  rw [run_ident_bind (φ := textAt 0)]
  · exact and_congr_right fun _ => some_nil_iff
  · exact fun v => yields_pure (hK v)
  · exact hK name

theorem toList_delete (name : String) : (Commands.delete name).toList = "DROP USER".toList ++ ' ' :: '"' :: (name.toList ++ ['"']) := by
  delta Commands.delete
  simp only [String.toList_append, String.reduceToList, List.cons_append, List.nil_append]

theorem parse_delete (name : String) : g.parseStatement.run (Commands.delete name).toList = some (.dropUser name, rest) ↔
    Name name ∧ rest = [] := by
  rw [toList_delete, run_drop_user]
  exact run_last_name fun _ => rfl

/-! ### Databases and retention policies -/

theorem toList_createDB (name : String) : (Commands.createDB name).toList = "CREATE DATABASE".toList ++ ' ' :: '"' :: (name.toList ++ ['"']) := by
  delta Commands.createDB
  simp only [String.toList_append, String.reduceToList, List.cons_append, List.nil_append]

theorem parse_createDB (name : String) : g.parseStatement.run (Commands.createDB name).toList =
    some (.createDatabase name none, rest) ↔ Name name ∧ rest = [] := by
  rw [toList_createDB, run_create_database, parseCreateDatabaseStatement, run_ident_bind (φ := textAt 0)]
  · exact and_congr_right fun _ => some_nil_iff
  · exact fun _ => yields_bind fun _ => yields_pure rfl
  · rfl

theorem toList_dropDB (db : String) : (Commands.dropDB db).toList = "DROP DATABASE".toList ++ ' ' :: '"' :: (db.toList ++ ['"']) := by
  delta Commands.dropDB
  simp only [String.toList_append, String.reduceToList, List.cons_append, List.nil_append]

theorem parse_dropDB (db : String) : g.parseStatement.run (Commands.dropDB db).toList = some (.dropDatabase db, rest) ↔
    Name db ∧ rest = [] := by
  rw [toList_dropDB, run_drop_database]
  exact run_last_name fun _ => rfl

/-- A command that ends with its options. -/
theorem run_options {α : Type} {p : Parser α} {K : α → Influxql.Statement} (hK : Function.Injective K) {a : α} :
    (p >>= fun options => pure (K options)).run cs = some (K a, rest) ↔ p.run cs = some (a, rest) := by
  rw [Parser.run_bind_eq_some]
  constructor
  · rintro ⟨o, mid, ho, hpure⟩
    obtain ⟨heq, rfl⟩ := Prod.mk.inj (Option.some.inj hpure)
    rw [← hK heq, ho]
  · exact fun h => ⟨a, rest, h, rfl⟩

theorem toList_createRP (db : String) (rp : Commands.RetentionPolicy) : (Commands.createRP db rp).toList = "CREATE RETENTION POLICY".toList ++ ' ' :: '"' :: (rp.name.toList ++
      '"' :: (" ON".toList ++ ' ' :: '"' :: (db.toList ++ '"' :: (Commands.createOptions rp).toList))) := by
  delta Commands.createRP Commands.createOptions
  dsimp only
  split_ifs <;>
    simp only [String.toList_append, List.append_assoc, String.reduceToList, List.cons_append, List.nil_append]

theorem parse_createRP (db : String) (rp : Commands.RetentionPolicy) (options : PolicyOptions) :
    g.parseStatement.run (Commands.createRP db rp).toList = some (.createRetentionPolicy rp.name db options, rest) ↔
      Name rp.name ∧ Name db ∧ parsePolicyOptions.run (Commands.createOptions rp).toList = some (options, rest) := by
  rw [toList_createRP, run_create_policy, parseCreateRetentionPolicyStatement, run_ident_bind (φ := textAt 0),
    Parser.run_bind_of_some (run_on _), run_ident_bind (φ := textAt 1)]
  · exact and_congr_right fun _ => and_congr_right fun _ => run_options fun _ _ h => (Influxql.Statement.createRetentionPolicy.inj h).2.2
  · exact fun _ => yields_bind fun _ => yields_pure rfl
  · rfl
  · exact fun _ => yields_bind fun _ => yields_bind fun _ => yields_bind fun _ => yields_pure rfl
  · rfl

/-- A name in double quotes is not the word `DEFAULT`. -/
theorem run_policyName (K : String → Parser Influxql.Statement) (cs : List Char) :
    (parsePolicyName >>= K).run (' ' :: '"' :: cs) = (parseIdent >>= K).run (' ' :: '"' :: cs) := by
  have hscan : scanIgnoreWhitespace (' ' :: '"' :: cs) = scanString '"' .ident cs :=
    scanIgnoreWhitespace_space (by decide) (by decide)
  have hname : parsePolicyName.run (' ' :: '"' :: cs) = parseIdent.run (' ' :: '"' :: cs) := by
    rw [parsePolicyName, parseIdent, run_scanToken_bind, run_scanToken_bind, hscan, scanString]
    cases Quotes.scanString unescape isBreak '"' cs <;> rfl
  rw [Parser.run_bind, Parser.run_bind, hname]

theorem toList_updateRP (db rp : String) (upd : Commands.RetentionPolicy) : (Commands.updateRP db rp upd).toList = "ALTER RETENTION POLICY".toList ++ ' ' :: '"' :: (rp.toList ++
      '"' :: (" ON".toList ++ ' ' :: '"' :: (db.toList ++ '"' :: (Commands.updateOptions upd).toList))) := by
  delta Commands.updateRP Commands.updateOptions
  simp only [String.toList_append, List.append_assoc, String.reduceToList, List.cons_append, List.nil_append]

theorem parse_updateRP (db rp : String) (upd : Commands.RetentionPolicy) (changes : PolicyChanges) :
    g.parseStatement.run (Commands.updateRP db rp upd).toList = some (.alterRetentionPolicy rp db changes, rest) ↔
      Name rp ∧ Name db ∧ parsePolicyChanges.run (Commands.updateOptions upd).toList = some (changes, rest) := by
  rw [toList_updateRP, run_alter_policy, parseAlterRetentionPolicyStatement, run_policyName, run_ident_bind (φ := textAt 0),
    Parser.run_bind_of_some (run_on _), run_ident_bind (φ := textAt 1)]
  · exact and_congr_right fun _ => and_congr_right fun _ => run_options fun _ _ h => (Influxql.Statement.alterRetentionPolicy.inj h).2.2
  · exact fun _ => yields_bind fun _ => yields_pure rfl
  · rfl
  · exact fun _ => yields_bind fun _ => yields_bind fun _ => yields_bind fun _ => yields_pure rfl
  · rfl

theorem toList_dropRP (db rp : String) : (Commands.dropRP db rp).toList = "DROP RETENTION POLICY".toList ++ ' ' :: '"' :: (rp.toList ++
      '"' :: (" ON".toList ++ ' ' :: '"' :: (db.toList ++ ['"']))) := by
  delta Commands.dropRP
  simp only [String.toList_append, List.append_assoc, String.reduceToList, List.cons_append, List.nil_append]

theorem parse_dropRP (db rp : String) : g.parseStatement.run (Commands.dropRP db rp).toList =
    some (.dropRetentionPolicy rp db, rest) ↔ (Name rp ∧ Name db) ∧ rest = [] := by
  rw [toList_dropRP, run_drop_policy, parseDropRetentionPolicyStatement, run_ident_bind (φ := textAt 0),
    Parser.run_bind_of_some (run_on _), run_ident_bind (φ := textAt 1), and_assoc]
  · exact and_congr_right fun _ => and_congr_right fun _ => some_nil_iff
  · exact fun _ => yields_pure rfl
  · rfl
  · exact fun _ => yields_bind fun _ => yields_bind fun _ => yields_pure rfl
  · rfl

/-! ### Privileges -/

/-- Words that are read as a privilege, another word after them. -/
def ReadsPrivilege (words : List Char) (priv : Privilege) : Prop :=
  ∀ {w t}, isWord w t → t ≠ .word .privileges → ∀ cs,
    parsePrivilege.run (' ' :: (words ++ ' ' :: (w ++ ' ' :: cs))) = some (priv, ' ' :: (w ++ ' ' :: cs))

theorem readsPrivilege_read : ReadsPrivilege "READ".toList .read := by
  intro w t _ _ cs
  have hread : isWord "READ".toList (.word .read) := rfl
  rw [parsePrivilege, run_scanToken_bind, scanIgnoreWhitespace_space_word hread]
  rfl

theorem readsPrivilege_write : ReadsPrivilege "WRITE".toList .write := by
  intro w t _ _ cs
  have hwrite : isWord "WRITE".toList (.word .write) := rfl
  rw [parsePrivilege, run_scanToken_bind, scanIgnoreWhitespace_space_word hwrite]
  rfl

theorem readsPrivilege_all : ReadsPrivilege "ALL".toList .all := by
  intro w t hw ht cs
  have hne : (scanIgnoreWhitespace (' ' :: (w ++ ' ' :: cs))).1 ≠ .word .privileges := by
    rw [scanIgnoreWhitespace_space_word hw]
    exact ht
  rw [parsePrivilege, run_scanToken_bind, scanIgnoreWhitespace_space_word isWord_all]
  exact Parser.run_bind_of_some (parseTokenMaybe_of_ne hne)

theorem readsPrivilege_all_privileges : ReadsPrivilege "ALL PRIVILEGES".toList .all := by
  intro w t _ _ cs
  have hprivileges : isWord "PRIVILEGES".toList (.word .privileges) := rfl
  show parsePrivilege.run (' ' :: ("ALL".toList ++ ' ' :: ("PRIVILEGES".toList ++ ' ' :: (w ++ ' ' :: cs)))) = _
  rw [parsePrivilege, run_scanToken_bind, scanIgnoreWhitespace_space_word isWord_all]
  exact Parser.run_bind_of_some (parseTokenMaybe_of_eq (scanIgnoreWhitespace_space_word hprivileges _))

/-- The word before the user. -/
def preposition : Action → Keyword
  | .grant => .to
  | .revoke => .«from»

theorem isWord_preposition (action : Action) :
    isWord (Commands.prepositionText action).toList (.word (preposition action)) := by
  cases action <;> rfl

theorem run_access (action : Action) (cs : List Char) : g.parseStatement.run ((Commands.actionText action).toList ++ ' ' :: cs) =
    (parseAccessStatement action (preposition action)).run (' ' :: cs) := by
  cases action with
  | grant =>
    have hgrant : isWord "GRANT".toList (.word .grant) := rfl
    exact parseStatement_grant (scanIgnoreWhitespace_word hgrant cs)
  | revoke =>
    have hrevoke : isWord "REVOKE".toList (.word .revoke) := rfl
    exact parseStatement_revoke (scanIgnoreWhitespace_word hrevoke cs)

theorem parse_admin (action : Action) (user : String) :
    g.parseStatement.run ((Commands.actionText action).toList ++ ' ' :: ("ALL PRIVILEGES".toList ++
      ' ' :: ((Commands.prepositionText action).toList ++ ' ' :: '"' :: (user.toList ++ ['"'])))) =
        some (.access ⟨action, .all, none, user⟩, rest) ↔ Name user ∧ rest = [] := by
  have hword := isWord_preposition action
  have hpriv := readsPrivilege_all_privileges hword (by cases action <;> nofun)
  have hon : Token.word (preposition action) ≠ .word .on := by cases action <;> nofun
  rw [run_access, parseAccessStatement, Parser.run_bind_of_some (hpriv _), run_scanToken_bind,
    scanIgnoreWhitespace_space_word hword, if_neg hon, if_pos ⟨rfl, rfl⟩]
  exact run_last_name (K := fun user => .access ⟨action, .all, none, user⟩) fun _ => rfl

theorem parse_on {words : List Char} {priv : Privilege} (hpriv : ReadsPrivilege words priv) (action : Action) (db user : String) :
    g.parseStatement.run ((Commands.actionText action).toList ++ ' ' :: (words ++ ' ' :: ("ON".toList ++
      ' ' :: '"' :: (db.toList ++ '"' :: ' ' :: ((Commands.prepositionText action).toList ++
        ' ' :: '"' :: (user.toList ++ ['"'])))))) =
          some (.access ⟨action, priv, some db, user⟩, rest) ↔ (Name db ∧ Name user) ∧ rest = [] := by
  have hon := hpriv isWord_on (by nofun)
  have hword : ∀ cs, (parseToken (.word (preposition action))).run
      (' ' :: ((Commands.prepositionText action).toList ++ ' ' :: cs)) = some ((), ' ' :: cs) :=
    fun cs => parseToken_of_eq (scanIgnoreWhitespace_space_word (isWord_preposition action) cs)
  rw [run_access, parseAccessStatement, Parser.run_bind_of_some (hon _), run_scanToken_bind,
    scanIgnoreWhitespace_space_word isWord_on, if_pos rfl, run_ident_bind (φ := textAt 0),
    Parser.run_bind_of_some (hword _), run_ident_bind (φ := textAt 1), and_assoc]
  · exact and_congr_right fun _ => and_congr_right fun _ => some_nil_iff
  · exact fun _ => yields_pure rfl
  · rfl
  · exact fun _ => yields_bind fun _ => yields_bind fun _ => yields_pure rfl
  · rfl

theorem safeAccess_some {on : Option String} {action : Action} {priv : Privilege} {user : String} :
    SafeAccess (some ⟨action, priv, on, user⟩) ↔ (∀ db ∈ on, Name db) ∧ Name user := by
  simp [SafeAccess]

theorem toList_on (action words db preposition user : String) : (action ++ " " ++ words ++ " ON \"" ++ db ++ "\" " ++
    preposition ++ " \"" ++ user ++ "\"").toList = action.toList ++ ' ' :: (words.toList ++ ' ' :: ("ON".toList ++
      ' ' :: '"' :: (db.toList ++ '"' :: ' ' :: (preposition.toList ++ ' ' :: '"' :: (user.toList ++ ['"']))))) := by
  simp only [String.toList_append, List.append_assoc, String.reduceToList, List.cons_append, List.nil_append]

theorem readsPrivilege_text {priv : Privilege} (h : priv ≠ .none) :
    ReadsPrivilege (Commands.privilegeText priv).toList priv := by
  cases priv with
  | none => exact absurd rfl h
  | read => exact readsPrivilege_read
  | write => exact readsPrivilege_write
  | all => exact readsPrivilege_all

theorem toList_admin (action preposition user : String) : (action ++ " ALL PRIVILEGES " ++ preposition ++ " \"" ++ user ++
    "\"").toList = action.toList ++ ' ' :: ("ALL PRIVILEGES".toList ++ ' ' :: (preposition.toList ++
      ' ' :: '"' :: (user.toList ++ ['"']))) := by
  simp only [String.toList_append, List.append_assoc, String.reduceToList, List.cons_append, List.nil_append]

theorem on_all_privileges (action : String) :
    action ++ " ALL PRIVILEGES ON \"" = action ++ " " ++ "ALL PRIVILEGES" ++ " ON \"" := by
  rw [String.append_assoc, String.append_assoc]
  rfl

theorem parse_toInfluxQL {action : Action} {username : String} {perm : Permission} {c : Command}
    (h : toInfluxQL action username perm = some c) :
    g.parseStatement.run (Commands.toInfluxQL (Commands.actionText action) (Commands.prepositionText action) username
      perm).toList = some (.access c, rest) ↔ SafeAccess (some c) ∧ rest = [] := by
  rw [toInfluxQL] at h
  delta Commands.toInfluxQL
  split_ifs at h ⊢ with hall hallowed hnone
  · cases h
    rw [toList_admin, parse_admin, safeAccess_some]
    simp
  · cases h
    rw [on_all_privileges, toList_on, parse_on readsPrivilege_all_privileges, safeAccess_some]
    simp
  · cases h
    rw [toList_on, parse_on (readsPrivilege_text hnone), safeAccess_some]
    simp

/-- No command is sent when none is meant. -/
theorem toInfluxQL_none {action : Action} {username : String} {perm : Permission} (h : toInfluxQL action username perm = none)
    (actionText preposition : String) : Commands.toInfluxQL actionText preposition username perm = "" := by
  rw [toInfluxQL] at h
  delta Commands.toInfluxQL
  split_ifs at h ⊢
  rfl

/-! ### Annotations -/

/-- The operands of the condition. -/
def idRef : Expr := .varRef "id" .unknown

def deletedRef : Expr := .varRef "deleted" .unknown

/-- What comes after the ID. -/
def afterId : List Char := " AND \"deleted\"=false ORDER BY time DESC".toList

/-- A name in quotes. -/
theorem scan_name {name : String} (hname : Name name) (cs : List Char) :
    scanIgnoreWhitespace (' ' :: '"' :: (name.toList ++ '"' :: cs)) = (.ident name, cs) := by
  rw [scanIgnoreWhitespace_space (by decide) (by decide)]
  exact scan_quoted_iff.mpr ⟨hname, rfl⟩

theorem run_deleted : g.parseUnaryExpr.run " \"deleted\"=false ORDER BY time DESC".toList =
    some (deletedRef, "=false ORDER BY time DESC".toList) := by
  have hname : Name "deleted" := by
    unfold Name
    decide +kernel
  exact parseUnaryExpr_of_ident (scan_name hname "=false ORDER BY time DESC".toList) (.inl ⟨.eq, rfl⟩)

theorem run_false : g.parseUnaryExpr.run "false ORDER BY time DESC".toList =
    some (.boolean false, " ORDER BY time DESC".toList) :=
  parseUnaryExpr_of_boolean rfl

/-- With the ID read, the condition is read to its end. -/
theorem run_afterId (id : String) : (Parser.iterate g.parseOperator (.binary .eq idRef (.string id))).run afterId =
    some (.binary .and (.binary .eq idRef (.string id)) (.binary .eq deletedRef (.boolean false)),
      " ORDER BY time DESC".toList) := by
  have hand : scanIgnoreWhitespace afterId = (.op .and, " \"deleted\"=false ORDER BY time DESC".toList) := rfl
  have heq : scanIgnoreWhitespace "=false ORDER BY time DESC".toList = (.op .eq, "false ORDER BY time DESC".toList) := rfl
  have horder : (scanIgnoreWhitespace " ORDER BY time DESC".toList).1 = .word .order := rfl
  rw [Parser.run_iterate_of_inl parseOperator_takes (parseOperator_of_op hand (by decide) run_deleted),
    Parser.run_iterate_of_inl parseOperator_takes (parseOperator_of_op heq (by decide) run_false)]
  refine Parser.run_iterate_of_inr (parseOperator_stop fun op hop => ?_)
  rw [horder] at hop
  cases hop

theorem run_orderBy {cs : List Char} (horder : scanIgnoreWhitespace cs = (.word .order, " BY time DESC".toList)) :
    parseOrderBy.run cs = some ([⟨"time", false⟩], []) := by
  have hby : scanIgnoreWhitespace " BY time DESC".toList = (.word .«by», " time DESC".toList) := rfl
  have hword : isWord "time".toList (.ident "time") := by decide +kernel
  have htime : scanIgnoreWhitespace " time DESC".toList = (.ident "time", " DESC".toList) :=
    scanIgnoreWhitespace_space_word hword "DESC".toList
  have hdesc : scanIgnoreWhitespace " DESC".toList = (.word .desc, []) := rfl
  rw [parseOrderBy, Parser.run_bind_of_some (parseTokenMaybe_of_eq horder), if_pos rfl,
    Parser.run_bind_of_some (parseToken_of_eq hby),
    Parser.run_bind_of_some (parseIdent_eq_some.mpr htime),
    Parser.run_bind_of_some (parseTokenMaybe_of_eq hdesc), if_pos rfl]
  rfl

/-- The condition on an ID in quotes, and what comes after it. -/
def whereId (id : String) : List Char := ' ' :: '"' :: ("id".toList ++ '"' :: '=' :: '\'' :: (id.toList ++ '\'' :: afterId))

theorem run_selectAll {condition : List Char} (hspace : condition.head? = some ' ') : g.parseSelectAll.run (' ' :: '*' :: ' ' ::
    ("FROM".toList ++ ' ' :: '"' :: ("annotations".toList ++ '"' :: ' ' :: ("WHERE".toList ++ condition)))) =
      (g.parseSelectWhere "annotations").run condition := by
  obtain ⟨cs, rfl⟩ : ∃ cs, condition = ' ' :: cs := List.head?_eq_some_iff.mp hspace
  have hmul : ∀ cs, scanIgnoreWhitespace (' ' :: '*' :: cs) = (.op .mul, cs) := fun _ => rfl
  have hfrom : isWord "FROM".toList (.word .«from») := rfl
  have hname : Name "annotations" := by
    unfold Name
    decide +kernel
  have hwhere : isWord "WHERE".toList (.word .«where») := rfl
  rw [parseSelectAll, Parser.run_bind_of_some (parseToken_of_eq (hmul _)),
    Parser.run_bind_of_some (parseToken_of_eq (scanIgnoreWhitespace_space_word hfrom _)),
    Parser.run_bind_of_some (parseIdent_eq_some.mpr (scan_name hname _))]
  exact Parser.run_bind_of_some (parseToken_of_eq (scanIgnoreWhitespace_space_word hwhere _))

theorem run_idRef (cs : List Char) : g.parseUnaryExpr.run (' ' :: '"' :: ("id".toList ++ '"' :: '=' :: '\'' :: cs)) =
    some (idRef, '=' :: '\'' :: cs) := by
  have hname : Name "id" := by
    unfold Name
    decide +kernel
  exact parseUnaryExpr_of_ident (scan_name hname _) (.inl ⟨.eq, rfl⟩)

theorem scan_eq_quote (cs : List Char) : scanIgnoreWhitespace ('=' :: '\'' :: cs) = (.op .eq, '\'' :: cs) := rfl

theorem scan_literal_first (cs : List Char) : scanIgnoreWhitespace ('\'' :: cs) = scan ('\'' :: cs) := by
  rw [scanIgnoreWhitespace, scan_literal, scanString]
  cases Quotes.scanString unescape isBreak '\'' cs <;> rfl

/-- What the condition of a `SELECT` is. -/
def conditionOf : Influxql.Statement → Option Expr
  | .select statement => statement.condition
  | _ => none

theorem conditionOf_other : Parser.Yields (g.parseOther [.select]) fun s => conditionOf s = none :=
  yields_bind fun _ => yields_pure rfl

theorem parse_whereId {id : String} (hid : Text id) : (g.parseSelectWhere "annotations").run (whereId id) =
    some (.select (annotationStatement id), []) := by
  have hstring : scanIgnoreWhitespace ('\'' :: (id.toList ++ '\'' :: afterId)) = (.string id, afterId) := by
    rw [scan_literal_first]
    exact scan_literal_iff.mpr ⟨hid, rfl⟩
  have hcondition : g.parseExpr.run (whereId id) = some (.binary .and (.binary .eq idRef (.string id))
      (.binary .eq deletedRef (.boolean false)), " ORDER BY time DESC".toList) := by
    rw [parseExpr, whereId, Parser.run_bind_of_some (run_idRef _), Parser.run_iterate_of_inl parseOperator_takes
      (parseOperator_of_op (scan_eq_quote _) (by decide) (parseUnaryExpr_of_string hstring))]
    exact run_afterId id
  rw [parseSelectWhere, Parser.run_bind_of_some hcondition, Parser.run_bind_of_some (run_orderBy rfl)]
  rfl

theorem conditionOf_where (source : String) {condition : Expr} : Parser.Yields (do
    let sortFields ← parseOrderBy
    let t ← scanToken.ahead
    if t = .eof ∨ t = .semicolon then
      pure (.select ⟨[⟨.wildcard .any, ""⟩], [⟨"", "", source, none⟩], some condition, [], .null, sortFields, 0, 0, 0, 0⟩)
    else Parser.fail) fun s => conditionOf s = some condition := by
  refine yields_bind fun _ => yields_bind fun t => ?_
  split_ifs
  · exact yields_pure rfl
  · exact Parser.yields_fail

/-- An ID that is not read as it is makes another condition. -/
theorem text_of_parse {id : String} (h : (g.parseSelectWhere "annotations").run (whereId id) =
    some (.select (annotationStatement id), rest)) : Text id := by
  obtain ⟨condition, mid, hexpr, hrest⟩ := Parser.run_bind_eq_some.mp h
  have hcondition : some condition = (annotationStatement id).condition := (conditionOf_where _ hrest).symm
  rw [parseExpr, whereId, Parser.run_bind_of_some (run_idRef _)] at hexpr
  cases hscan : Quotes.scanString unescape isBreak '\'' (id.toList ++ '\'' :: afterId) with
  | none =>
    have hbad : g.parseUnaryExpr.run ('\'' :: (id.toList ++ '\'' :: afterId)) = none := by
      rw [parseUnaryExpr, run_ahead_bind, scan_literal_first, scan_literal, scanString, hscan]
      rfl
    rw [Parser.run_iterate_of_none (parseOperator_of_none (scan_eq_quote _) (by decide) hbad)] at hexpr
    cases hexpr
  | some r =>
    obtain ⟨z, after⟩ := r
    have hstring : scanIgnoreWhitespace ('\'' :: (id.toList ++ '\'' :: afterId)) = (.string (String.ofList z), after) := by
      rw [scan_literal_first, scan_literal, scanString, hscan]
    rw [Parser.run_iterate_of_inl parseOperator_takes
      (parseOperator_of_op (scan_eq_quote _) (by decide) (parseUnaryExpr_of_string hstring))] at hexpr
    -- the second operand is the string that has been read
    have hoperands := parseExpr_operands [idRef, .string (String.ofList z)] (List.prefix_refl _) hexpr
    rw [Option.some.inj hcondition] at hoperands
    have hz : String.ofList z = id := by
      obtain ⟨hsecond, _⟩ := List.cons_prefix_cons.mp (List.cons_prefix_cons.mp hoperands).2
      exact Expr.string.inj hsecond
    rw [hz, scan_literal_first] at hstring
    exact (scan_literal_iff.mp hstring).1

theorem toList_get (id : String) : (Annotations.getAnnotationID id).toList = "SELECT".toList ++ ' ' :: '*' :: ' ' :: ("FROM".toList ++
      ' ' :: '"' :: ("annotations".toList ++ '"' :: ' ' :: ("WHERE".toList ++ whereId id))) := by
  delta Annotations.getAnnotationID whereId afterId
  simp only [String.toList_append, String.reduceToList, List.cons_append, List.nil_append]

theorem parse_get (id : String) : g.parseStatement.run (Annotations.getAnnotationID id).toList =
    some (.select (annotationStatement id), rest) ↔ Text id ∧ rest = [] := by
  have hselect : isWord "SELECT".toList (.word .select) := rfl
  rw [toList_get, parseStatement_select (scanIgnoreWhitespace_word hselect _), parseSelectStatement]
  have hparse : Text id → (g.parseSelectAll.orElse (g.parseOther [.select])).run (' ' :: '*' :: ' ' :: ("FROM".toList ++ ' ' :: '"' ::
      ("annotations".toList ++ '"' :: ' ' :: ("WHERE".toList ++ whereId id)))) = some (.select (annotationStatement id), []) :=
    fun hid => Parser.run_orElse_of_some ((run_selectAll rfl).trans (parse_whereId hid))
  constructor
  · intro h
    have hid : Text id := by
      rcases Parser.run_orElse_eq_some h with hall | hother
      · rw [run_selectAll rfl] at hall
        exact text_of_parse hall
      · cases conditionOf_other hother
    rw [hparse hid] at h
    exact ⟨hid, some_nil_iff.mp h⟩
  · rintro ⟨hid, rfl⟩
    exact hparse hid

end Request

end Influx
end Chronograf
