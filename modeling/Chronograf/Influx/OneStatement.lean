/-
# One statement for each command

A command is one statement of its kind with the names and texts as they are if
and only if none of these has the quote it stands in, a backslash, the
character 0 or the end of a line, and the options of a retention policy are
options: durations and a replication factor are. A name with a quote can add
statements of its own.

Key theorems: `one_statement_iff`, `two_statements`.
-/
import Chronograf.Influx.Commands

namespace Chronograf
namespace Influx
namespace Request

open Influxql Grammar

variable {g : Grammar} {s : Influxql.Statement} {cs mid rest : List Char}

/-- A command begins with a word. -/
def BeginsWithWord (command : String) : Prop := ∃ k, (scanIgnoreWhitespace command.toList).1 = .word k

theorem toInfluxQL_begins {action : Action} {username : String} {perm : Permission} {c : Command}
    (h : toInfluxQL action username perm = some c) :
    BeginsWithWord (Commands.toInfluxQL (Commands.actionText action) (Commands.prepositionText action) username perm) := by
  have hword : ∃ k, isWord (Commands.actionText action).toList (.word k) := by
    cases action with
    | grant => exact ⟨.grant, rfl⟩
    | revoke => exact ⟨.revoke, rfl⟩
  obtain ⟨k, hk⟩ := hword
  refine ⟨k, ?_⟩
  rw [toInfluxQL] at h
  delta Commands.toInfluxQL
  split_ifs at h ⊢ with hall hallowed hnone
  · rw [toList_admin, scanIgnoreWhitespace_word hk]
  · rw [on_all_privileges, toList_on, scanIgnoreWhitespace_word hk]
  · rw [toList_on, scanIgnoreWhitespace_word hk]

theorem exact_iff_exists {r : Request} (hbegins : BeginsWithWord r.command) :
    r.Exact g ↔ ∃ s mid, r.Says s ∧ g.parseStatement.run r.command.toList = some (s, mid) ∧ g.Closed mid := by
  obtain ⟨k, hk⟩ := hbegins
  have hne : r.command ≠ "" := by
    intro hempty
    rw [hempty] at hk
    cases hk
  constructor
  · intro h
    obtain ⟨s, hquery, hmeans⟩ := h hne
    obtain ⟨mid, hparse, hclosed⟩ := (parseQuery_single hk).mp hquery
    exact ⟨s, mid, hmeans, hparse, hclosed⟩
  · rintro ⟨s, mid, hmeans, hparse, hclosed⟩ _
    exact ⟨s, (parseQuery_single hk).mpr ⟨mid, hparse, hclosed⟩, hmeans⟩

/-- A command of which every part is read as it is. -/
theorem exact_iff_of {r : Request} {P : Prop} (s₀ : Influxql.Statement) (hbegins : BeginsWithWord r.command)
    (hmeans : ∀ s, r.Says s ↔ s = s₀)
    (hparse : ∀ {rest}, g.parseStatement.run r.command.toList = some (s₀, rest) ↔ P ∧ rest = []) : r.Exact g ↔ P := by
  rw [exact_iff_exists hbegins]
  constructor
  · rintro ⟨s, mid, hs, hrun, _⟩
    rw [(hmeans s).mp hs] at hrun
    exact (hparse.mp hrun).1
  · exact fun h => ⟨s₀, [], (hmeans s₀).mpr rfl, hparse.mpr ⟨h, rfl⟩, closed_nil⟩

/-- A command that ends with options. -/
theorem exact_iff_reads {α : Type} {r : Request} {p : Parser α} {options : String} {N M : Prop} {K : α → Influxql.Statement}
    (hbegins : BeginsWithWord r.command) (hmeans : ∀ s, r.Says s ↔ ∃ a, s = K a)
    (hparse : ∀ {a rest}, g.parseStatement.run r.command.toList = some (K a, rest) ↔
      N ∧ M ∧ p.run options.toList = some (a, rest)) : r.Exact g ↔ N ∧ M ∧ Reads g p options := by
  rw [exact_iff_exists hbegins]
  constructor
  · rintro ⟨s, mid, hs, hrun, hclosed⟩
    obtain ⟨a, rfl⟩ := (hmeans s).mp hs
    obtain ⟨hn, hm, hoptions⟩ := hparse.mp hrun
    exact ⟨hn, hm, a, mid, hoptions, hclosed⟩
  · rintro ⟨hn, hm, a, mid, hoptions, hclosed⟩
    exact ⟨K a, mid, (hmeans _).mpr ⟨a, rfl⟩, hparse.mpr ⟨hn, hm, hoptions⟩, hclosed⟩

theorem exact_iff_access {r : Request} (action : Action) {username : String} {perm : Permission}
    (hcommand : r.command = Commands.toInfluxQL (Commands.actionText action) (Commands.prepositionText action) username perm)
    (hmeans : ∀ s, r.Says s ↔ ∃ c, toInfluxQL action username perm = some c ∧ s = .access c) :
    r.Exact g ↔ SafeAccess (toInfluxQL action username perm) := by
  cases hmeant : toInfluxQL action username perm with
  | none =>
    have hempty : r.command = "" := hcommand.trans (toInfluxQL_none hmeant _ _)
    exact iff_of_true (fun h => absurd hempty h) fun _ => nofun
  | some c =>
    refine exact_iff_of (.access c) ?_ (fun s => ?_) ?_
    · rw [hcommand]
      exact toInfluxQL_begins hmeant
    · rw [hmeans, hmeant]
      simp
    · rw [hcommand]
      exact parse_toInfluxQL hmeant

/-- Every call sends exactly one statement, which says what the call is for, if
and only if what it pastes is safe where it is pasted. -/
theorem one_statement_iff (g : Grammar) (r : Request) : r.Exact g ↔ r.Safe g := by
  cases r with
  | add name passwd => exact exact_iff_of _ ⟨.create, by rw [command, toList_add]; rfl⟩ (fun _ => Iff.rfl) (parse_add name passwd)
  | delete name => exact exact_iff_of _ ⟨.drop, by rw [command, toList_delete]; rfl⟩ (fun _ => Iff.rfl) (parse_delete name)
  | updatePassword name passwd =>
    exact exact_iff_of _ ⟨.set, by rw [command, toList_updatePassword]; rfl⟩ (fun _ => Iff.rfl) (parse_updatePassword name passwd)
  | grantPermission username perm =>
    by_cases hallowed : perm.allowed.length = 0
    · have hnone : toGrant username perm = none := if_pos hallowed
      have hempty : (grantPermission username perm).command = "" := if_pos hallowed
      refine iff_of_true (fun h => absurd hempty h) ?_
      rw [Safe, hnone]
      nofun
    · have hmeant : toGrant username perm = toInfluxQL .grant username perm := if_neg hallowed
      have hcommand : (grantPermission username perm).command = Commands.toInfluxQL "GRANT" "TO" username perm := if_neg hallowed
      rw [Safe, hmeant]
      refine exact_iff_access .grant hcommand fun s => ?_
      rw [Says, hmeant]
  | revokePermission username perm => exact exact_iff_access .revoke rfl fun _ => Iff.rfl
  | createDB name =>
    exact exact_iff_of _ ⟨.create, by rw [command, toList_createDB]; rfl⟩ (fun _ => Iff.rfl) (parse_createDB name)
  | dropDB db => exact exact_iff_of _ ⟨.drop, by rw [command, toList_dropDB]; rfl⟩ (fun _ => Iff.rfl) (parse_dropDB db)
  | createRP db rp =>
    exact exact_iff_reads ⟨.create, by rw [command, toList_createRP]; rfl⟩ (fun _ => Iff.rfl) (parse_createRP db rp _)
  | updateRP db rp upd =>
    exact exact_iff_reads ⟨.alter, by rw [command, toList_updateRP]; rfl⟩ (fun _ => Iff.rfl) (parse_updateRP db rp upd _)
  | dropRP db rp => exact exact_iff_of _ ⟨.drop, by rw [command, toList_dropRP]; rfl⟩ (fun _ => Iff.rfl) (parse_dropRP db rp)
  | get id =>
    exact exact_iff_of _ ⟨.select, by rw [command, toList_get]; rfl⟩ (fun _ => Iff.rfl) (parse_get id)

/-! ### A second statement -/

/-- A name that ends its quotes and goes on with a statement of its own. -/
theorem two_statements (g : Grammar) : g.parseQuery (dropDB "a\";DROP DATABASE \"b").command =
    some [.dropDatabase "a", .dropDatabase "b"] := by
  have hdrop : ∀ {name : String}, Name name → ∀ cs,
      (scanIgnoreWhitespace ("DROP DATABASE".toList ++ ' ' :: '"' :: (name.toList ++ '"' :: cs))).1 = .word .drop ∧
      g.parseStatement.run ("DROP DATABASE".toList ++ ' ' :: '"' :: (name.toList ++ '"' :: cs)) =
        some (.dropDatabase name, cs) := by
    intro name hname cs
    refine ⟨rfl, ?_⟩
    rw [run_drop_database, parseDropDatabaseStatement, Parser.run_bind_of_some (parseIdent_eq_some.mpr (scan_name hname cs))]
    rfl
  have ha : Name "a" := by
    unfold Name
    decide +kernel
  have hb : Name "b" := by
    unfold Name
    decide +kernel
  have htext : (dropDB "a\";DROP DATABASE \"b").command.toList = "DROP DATABASE".toList ++
      ' ' :: '"' :: ("a".toList ++ '"' :: ';' :: ("DROP DATABASE".toList ++ ' ' :: '"' :: ("b".toList ++ ['"']))) := by
    rw [command, toList_dropDB]
    simp only [String.reduceToList, List.cons_append, List.nil_append]
  -- the turns: the first statement, the semicolon, the second one, the end
  have hsecond : (Parser.iterate g.parseNext (true, [.dropDatabase "a"])).run
      ("DROP DATABASE".toList ++ ' ' :: '"' :: ("b".toList ++ ['"'])) = some ([.dropDatabase "a", .dropDatabase "b"], []) := by
    have hturn := parseNext_of_word (g := g) (hdrop hb []).1 [.dropDatabase "a"]
    rw [(hdrop hb []).2, Option.map_some] at hturn
    rw [Parser.run_iterate_of_inl parseNext_takes hturn]
    exact Parser.run_iterate_of_inr rfl
  have hsemicolon : ∀ cs, (g.parseNext (false, [.dropDatabase "a"])).run (';' :: cs) = some (.inl (true, [.dropDatabase "a"]), cs) :=
    fun _ => rfl
  have hturn := parseNext_of_word (g := g) (hdrop ha (';' :: ("DROP DATABASE".toList ++ ' ' :: '"' :: ("b".toList ++ ['"'])))).1 []
  rw [(hdrop ha _).2, Option.map_some, List.nil_append] at hturn
  rw [parseQuery, htext, Parser.run_iterate_of_inl parseNext_takes hturn,
    Parser.run_iterate_of_inl parseNext_takes (hsemicolon _), hsecond, Option.map_some]

/-- A grammar of nothing else. -/
def bareGrammar : Grammar := ⟨fun _ => Parser.fail, Parser.fail, Parser.fail⟩

theorem dropDB_not_exact : ¬ ∀ (g : Grammar) (r : Request), r.Exact g := by
  intro h
  obtain ⟨s, hquery, _⟩ := h bareGrammar (dropDB "a\";DROP DATABASE \"b") (by nofun)
  rw [two_statements] at hquery
  cases hquery

end Request

end Influx
end Chronograf
