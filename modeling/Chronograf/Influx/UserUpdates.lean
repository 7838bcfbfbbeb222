/-
# What an update of a user's permissions reaches

The commands of an update are folded over the user's account: the last grant on
a database counts, what a revocation takes stays taken. Entries for one
database are not joined, an entry for all databases makes an administrator
whatever it allows, and is the one the administrator has only without a name.

Key definitions: `Wanted`, `Reached`, `AdminAgrees`, `DatabaseAgrees`.
Key theorem: `update_reaches_iff`.
-/
import Chronograf.Influx.Permissions
import Chronograf.Lib.Checks
import Mathlib.Data.List.Induction

namespace Chronograf
namespace Influx

/-! ### Accounts and commands -/

theorem Privilege.subtract_self (p : Privilege) : p.subtract p = .none := by cases p <;> rfl

theorem Privilege.none_subtract (p : Privilege) : Privilege.none.subtract p = .none := by cases p <;> rfl

theorem Privilege.subtract_all (p : Privilege) : p.subtract .all = .none := by cases p <;> rfl

section Accounts

variable {acc : Account} {db : String}

theorem privilege_insert (p : Privilege) (db' : String) :
    Account.privilege { acc with grants := acc.grants.insert db p } db' = if db' = db then p else acc.privilege db' := by
  unfold Account.privilege
  by_cases hdb : db' = db
  · subst hdb
    rw [if_pos rfl, AList.lookup_insert]
    rfl
  · rw [if_neg hdb, AList.lookup_insert_ne hdb]

/-- The privilege on a database after a command. -/
theorem privilege_apply (c : Command) : (acc.apply c).privilege db =
    if c.on = some db then match c.action with
      | .grant => c.privilege
      | .revoke => (acc.privilege db).subtract c.privilege
    else acc.privilege db := by
  obtain ⟨action, p, on, user⟩ := c
  cases on with
  | none => cases action <;> rfl
  | some db' =>
    by_cases hdb : db = db'
    · subst hdb
      cases action <;> simp [Account.apply, privilege_insert]
    · have hne : db' ≠ db := fun h => hdb h.symm
      cases action <;> simp [Account.apply, privilege_insert, hdb, hne]

theorem admin_apply (c : Command) :
    (acc.apply c).admin = if c.on = none then decide (c.action = .grant) else acc.admin := by
  obtain ⟨action, p, on, user⟩ := c
  cases on <;> cases action <;> rfl

/-- After grants: the last one on a database counts. -/
theorem grants_privilege {cs : List Command} (hcs : ∀ c ∈ cs, c.action = .grant) :
    (cs.foldl Account.apply acc).privilege db =
      ((cs.filter (·.on = some db)).getLast?.map Command.privilege).getD (acc.privilege db) := by
  induction cs using List.reverseRecOn with
  | nil => rfl
  | append_singleton cs c ih =>
    have hc : c.action = .grant := hcs c (by simp)
    rw [List.foldl_append, List.foldl_cons, List.foldl_nil, privilege_apply, List.filter_append]
    by_cases hon : c.on = some db
    · simp [hon, hc]
    · rw [if_neg hon, ih fun c' hc' => hcs c' (List.mem_append_left _ hc')]
      simp [hon]

theorem grants_admin {cs : List Command} (hcs : ∀ c ∈ cs, c.action = .grant) :
    (cs.foldl Account.apply acc).admin = true ↔ acc.admin = true ∨ ∃ c ∈ cs, c.on = none := by
  induction cs using List.reverseRecOn with
  | nil => simp
  | append_singleton cs c ih =>
    have hc : c.action = .grant := hcs c (by simp)
    rw [List.foldl_append, List.foldl_cons, List.foldl_nil, admin_apply]
    by_cases hon : c.on = none
    · rw [if_pos hon, hc]
      exact iff_of_true rfl (.inr ⟨c, by simp, hon⟩)
    · rw [if_neg hon, ih fun c' hc' => hcs c' (List.mem_append_left _ hc')]
      simp [hon]

/-- What is gone stays gone. -/
theorem revokes_none {cs : List Command} (hcs : ∀ c ∈ cs, c.action = .revoke) (h : acc.privilege db = .none) :
    (cs.foldl Account.apply acc).privilege db = .none := by
  induction cs generalizing acc with
  | nil => exact h
  | cons c cs ih =>
    refine ih (fun c' hc' => hcs c' (List.mem_cons_of_mem _ hc')) ?_
    rw [privilege_apply, hcs c List.mem_cons_self, h]
    split_ifs
    · exact Privilege.none_subtract _
    · rfl

/-- A revocation of all privileges, or of those there are. -/
theorem revokes_privilege {cs : List Command} (hcs : ∀ c ∈ cs, c.action = .revoke)
    (h : ∀ c ∈ cs, c.on = some db → c.privilege = .all ∨ c.privilege = acc.privilege db) :
    (cs.foldl Account.apply acc).privilege db = if ∃ c ∈ cs, c.on = some db then .none else acc.privilege db := by
  induction cs generalizing acc with
  | nil => simp
  | cons c cs ih =>
    have hrest : ∀ c' ∈ cs, c'.action = .revoke := fun c' hc' => hcs c' (List.mem_cons_of_mem _ hc')
    rw [List.foldl_cons]
    by_cases hon : c.on = some db
    · rw [if_pos ⟨c, List.mem_cons_self, hon⟩]
      refine revokes_none hrest ?_
      rw [privilege_apply, if_pos hon, hcs c List.mem_cons_self]
      rcases h c List.mem_cons_self hon with hp | hp
      · rw [hp]
        exact Privilege.subtract_all _
      · rw [hp]
        exact Privilege.subtract_self _
    · have hsame : (acc.apply c).privilege db = acc.privilege db := by rw [privilege_apply, if_neg hon]
      rw [ih hrest fun c' hc' => by
        rw [hsame]
        exact h c' (List.mem_cons_of_mem _ hc'), hsame]
      simp [hon]

theorem revokes_admin {cs : List Command} (hcs : ∀ c ∈ cs, c.action = .revoke) :
    (cs.foldl Account.apply acc).admin = true ↔ acc.admin = true ∧ ∀ c ∈ cs, c.on ≠ none := by
  induction cs generalizing acc with
  | nil => simp
  | cons c cs ih =>
    rw [List.foldl_cons, ih fun c' hc' => hcs c' (List.mem_cons_of_mem _ hc'), admin_apply, hcs c List.mem_cons_self]
    by_cases hon : c.on = none <;> simp [hon]

end Accounts

/-! ### Programs -/

/-- A program of commands for one user, folded over the account. -/
theorem run_forEach (f : Permission → Option Command) (post : Permission → Client Unit) {name : String}
    (hpost : ∀ p, post p = match f p with
      | some c => Client.query c
      | none => pure ()) (huser : ∀ p, ∀ c ∈ f p, c.user = name) :
    ∀ (ps : List Permission) {s : Accounts} {acc : Account}, s.lookup name = some acc →
      ∃ s', (Tx.forEach ps post).run s = (.ok (), s') ∧
        s'.lookup name = some ((ps.filterMap f).foldl Account.apply acc) ∧ ∀ n, n ≠ name → s'.lookup n = s.lookup n
  | [], s, acc, h => ⟨s, rfl, h, fun _ _ => rfl⟩
  | p :: ps, s, acc, h => by
    rw [Tx.forEach, hpost]
    cases hf : f p with
    | none =>
      obtain ⟨s', hrun, hlookup, hrest⟩ := run_forEach f post hpost huser ps h
      refine ⟨s', (Tx.run_bind_ok rfl).trans hrun, ?_, hrest⟩
      rw [List.filterMap_cons_none hf]
      exact hlookup
    | some c =>
      have hname : c.user = name := huser p c hf
      have hquery : (Client.query c).run s = (.ok (), s.insert name (acc.apply c)) := by
        apply Tx.run_update_ok
        rw [hname, h]
      obtain ⟨s', hrun, hlookup, hrest⟩ := run_forEach f post hpost huser ps (AList.lookup_insert s)
      refine ⟨s', (Tx.run_bind_ok hquery).trans hrun, ?_, fun n hn => ?_⟩
      · rw [List.filterMap_cons_some hf]
        exact hlookup
      · rw [hrest n hn, AList.lookup_insert_ne hn]

/-- The permissions of an account as they are read. -/
def Account.shown (acc : Account) : List Permission :=
  (if acc.admin then adminPerms else []) ++ showResults.permissions (acc.grants.entries.map fun e => [.str e.1, .str e.2.shown])

theorem users_entries (entries : List (Sigma fun _ : String => Account)) :
    showResults.users (entries.map fun e => [.str e.1, .bool e.2.admin]) =
      entries.map fun e => ⟨e.1, "", if e.2.admin then adminPerms else []⟩ := by
  rw [showResults.users, List.filterMap_map, ← List.filterMap_eq_map]
  rfl

theorem find_entry (name : String) : ∀ entries : List (Sigma fun _ : String => Account),
    entries.find? (·.1 = name) = (entries.dlookup name).map (Sigma.mk name)
  | [] => rfl
  | ⟨n, acc⟩ :: entries => by
    by_cases hn : n = name
    · subst hn
      rw [List.dlookup_cons_eq, List.find?_cons_of_pos (by simp)]
      rfl
    · rw [List.dlookup_cons_ne _ _ fun h => hn h.symm, List.find?_cons_of_neg (by simpa using hn)]
      exact find_entry name entries

theorem get_run {s : Accounts} (name : String) : (Client.get name).run s = match s.lookup name with
    | some acc => (.ok ⟨name, "", acc.shown⟩, s)
    | none => (.error .userNotFound, s) := by
  have hfind : (showResults.users (s.entries.map fun e => [.str e.1, .bool e.2.admin])).find? (·.name = name) =
      (s.lookup name).map fun acc => ⟨name, "", if acc.admin then adminPerms else []⟩ := by
    rw [users_entries, List.find?_map]
    exact (congrArg (Option.map _) (find_entry name s.entries)).trans (Option.map_map _ _ _)
  have hshow : Client.showUsers.run s = (.ok (showResults.users (s.entries.map fun e => [.str e.1, .bool e.2.admin])), s) := rfl
  rw [Client.get, Tx.run_bind_ok hshow]
  cases hlookup : s.lookup name with
  | none =>
    rw [hlookup] at hfind
    simp only [hfind, Option.map_none]
    rfl
  | some acc =>
    rw [hlookup] at hfind
    have hperms : (Client.userPermissions name).run s =
        (.ok (showResults.permissions (acc.grants.entries.map fun e => [.str e.1, .str e.2.shown])), s) := by
      rw [Client.userPermissions, Tx.run_view, hlookup]
    simp only [hfind, Option.map_some]
    exact Tx.run_bind_ok hperms

/-! ### The account after an update -/

/-- What an update sends for an account. -/
def grantsOf (name : String) (wants : List Permission) (acc : Account) : List Command :=
  (difference wants acc.shown).2.filterMap (toGrant name)

def revokesOf (name : String) (wants : List Permission) (acc : Account) : List Command :=
  (difference wants acc.shown).1.filterMap (toRevoke name)

theorem toInfluxQL_spec {action : Action} {name : String} {p : Permission} {c : Command} (h : c ∈ toInfluxQL action name p) :
    c.action = action ∧ c.user = name := by
  unfold toInfluxQL at h
  split_ifs at h
  · obtain rfl := Option.some.inj h
    exact ⟨rfl, rfl⟩
  · obtain rfl := Option.some.inj h
    exact ⟨rfl, rfl⟩
  · cases h
  · obtain rfl := Option.some.inj h
    exact ⟨rfl, rfl⟩

theorem toGrant_spec {name : String} {p : Permission} {c : Command} (h : c ∈ toGrant name p) :
    c.action = .grant ∧ c.user = name := by
  unfold toGrant at h
  split_ifs at h
  · cases h
  · exact toInfluxQL_spec h

theorem update_run {u : User} (hpass : u.passwd = "") {s : Accounts} : match s.lookup u.name with
    | none => (Client.update u).run s = (.error .userNotFound, s)
    | some acc => ∃ s', (Client.update u).run s = (.ok (), s') ∧
        s'.lookup u.name = some ((revokesOf u.name u.permissions acc).foldl Account.apply
          ((grantsOf u.name u.permissions acc).foldl Account.apply acc)) ∧
        ∀ n, n ≠ u.name → s'.lookup n = s.lookup n := by
  have hget := get_run (s := s) u.name
  rw [Client.update, if_neg (not_not.mpr hpass)]
  cases hlookup : s.lookup u.name with
  | none =>
    rw [hlookup] at hget
    exact Tx.run_bind_error hget
  | some acc =>
    rw [hlookup] at hget
    obtain ⟨s₁, hrun₁, hlookup₁, hrest₁⟩ := run_forEach (toGrant u.name) (Client.grantPermission u.name)
      (fun _ => rfl) (fun _ _ h => (toGrant_spec h).2) (difference u.permissions acc.shown).2 hlookup
    obtain ⟨s₂, hrun₂, hlookup₂, hrest₂⟩ := run_forEach (toRevoke u.name) (Client.revokePermission u.name)
      (fun _ => rfl) (fun _ _ h => (toInfluxQL_spec h).2) (difference u.permissions acc.shown).1 hlookup₁
    exact ⟨s₂, (Tx.run_bind_ok hget).trans ((Tx.run_bind_ok hrun₁).trans hrun₂), hlookup₂,
      fun n hn => (hrest₂ n hn).trans (hrest₁ n hn)⟩

theorem update_stops (u : User) : Tx.StopsOnFailure (Client.update u) := by
  refine .ite .update (.bind (.bind .view fun users => ?_) fun user => .bind (.forEach (fun p => ?_) _) fun _ => .forEach (fun p => ?_) _)
  · split
    · exact .fail
    · exact .bind .view fun _ => .pure
  · unfold Client.grantPermission
    split
    · exact .update
    · exact .pure
  · unfold Client.revokePermission
    split
    · exact .update
    · exact .pure

/-! ### What is read and asked for -/

/-- The allowances a privilege is read as. -/
def Privilege.allowed : Privilege → List String
  | none => []
  | read => ["READ"]
  | write => ["WRITE"]
  | all => ["WRITE", "READ"]

theorem toPriv_allowed (p : Privilege) : toPriv p.allowed = p := by cases p <;> decide

/-- One row of the grants. -/
theorem row_shown (db : String) (p : Privilege) : showResults.permission [.str db, .str p.shown] =
    if p = .none then none else some ⟨dbScope, db, p.allowed⟩ := by
  cases p <;> rfl

theorem mem_permissions_shown {acc : Account} {p : Permission} :
    p ∈ showResults.permissions (acc.grants.entries.map fun e => [.str e.1, .str e.2.shown]) ↔
      p.scope = dbScope ∧ acc.privilege p.name ≠ .none ∧ p.allowed = (acc.privilege p.name).allowed := by
  rw [showResults.permissions, List.filterMap_map, List.mem_filterMap]
  constructor
  · rintro ⟨⟨db, priv⟩, hentry, hrow⟩
    have hpriv : acc.privilege db = priv := by rw [Account.privilege, AList.mem_lookup_iff.mpr hentry, Option.getD_some]
    rw [Function.comp_apply, row_shown] at hrow
    split_ifs at hrow with hnone
    obtain rfl := Option.some.inj hrow
    exact ⟨rfl, hpriv.symm ▸ hnone, by rw [hpriv]⟩
  · obtain ⟨scope, db, allowed⟩ := p
    rintro ⟨rfl, hpriv, hallowed⟩
    dsimp only at hpriv hallowed
    subst hallowed
    cases hlookup : acc.grants.lookup db with
    | none =>
      refine absurd ?_ hpriv
      rw [Account.privilege, hlookup, Option.getD_none]
    | some priv =>
      have heq : acc.privilege db = priv := by rw [Account.privilege, hlookup, Option.getD_some]
      refine ⟨⟨db, priv⟩, AList.mem_lookup_iff.mp hlookup, ?_⟩
      rw [Function.comp_apply, row_shown, if_neg (heq ▸ hpriv), heq]

theorem mem_shown {acc : Account} {p : Permission} : p ∈ acc.shown ↔
    acc.admin = true ∧ p = ⟨allScope, "", ["ALL"]⟩ ∨
      p.scope = dbScope ∧ acc.privilege p.name ≠ .none ∧ p.allowed = (acc.privilege p.name).allowed := by
  rw [Account.shown, List.mem_append, mem_permissions_shown]
  cases acc.admin <;> simp [adminPerms]

/-- The entries of a list for one database. -/
def forDb (wants : List Permission) (db : String) : List Permission := wants.filter fun w => w.scope = dbScope ∧ w.name = db

/-- What they allow together. -/
def together (ws : List Permission) : List String := ws.flatMap Permission.allowed

theorem any_shown {acc : Account} {want : Permission} : acc.shown.any (sameSubject want) = true ↔
    want.scope = allScope ∧ want.name = "" ∧ acc.admin = true ∨ want.scope = dbScope ∧ acc.privilege want.name ≠ .none := by
  rw [List.any_eq_true]
  constructor
  · rintro ⟨got, hgot, hsame⟩
    obtain ⟨hscope, hname⟩ : want.scope = got.scope ∧ want.name = got.name := by simpa [sameSubject] using hsame
    rw [hscope, hname]
    rcases mem_shown.mp hgot with ⟨hadmin, rfl⟩ | ⟨hdb, hpriv, -⟩
    · exact .inl ⟨rfl, rfl, hadmin⟩
    · exact .inr ⟨hdb, hpriv⟩
  · rintro (⟨hscope, hname, hadmin⟩ | ⟨hscope, hpriv⟩)
    · exact ⟨_, mem_shown.mpr (.inl ⟨hadmin, rfl⟩), by simp [sameSubject, hscope, hname]⟩
    · exact ⟨⟨dbScope, want.name, (acc.privilege want.name).allowed⟩, mem_shown.mpr (.inr ⟨rfl, hpriv, rfl⟩),
        by simp [sameSubject, hscope]⟩

section Account

variable {name : String} {wants : List Permission} {acc : Account} {db : String}

theorem mem_adds {w : Permission} : w ∈ (difference wants acc.shown).2 ↔
    w ∈ wants ∧ ¬ (acc.shown.any (sameSubject w) = true ∧ w.allowed = []) := by
  simp only [difference, List.mem_filter, Bool.not_eq_true', ← Bool.not_eq_true, Bool.and_eq_true, decide_eq_true_eq]

theorem mem_revoked {w : Permission} : w ∈ (difference wants acc.shown).1 ↔
    (w ∈ wants ∧ acc.shown.any (sameSubject w) = true ∧ w.allowed = []) ∨
      (w ∈ acc.shown ∧ ∀ want ∈ wants, ¬ (want.scope = w.scope ∧ want.name = w.name)) := by
  simp [difference, sameSubject]

theorem toGrant_on_none (name : String) {w : Permission} : (∃ c ∈ toGrant name w, c.on = none) ↔ w.scope = allScope ∧ w.allowed ≠ [] := by
  unfold toGrant toInfluxQL
  split_ifs <;> simp_all

theorem toRevoke_on_none (name : String) {w : Permission} : (∃ c ∈ toRevoke name w, c.on = none) ↔ w.scope = allScope := by
  unfold toRevoke toInfluxQL
  split_ifs <;> simp_all

theorem grantsOf_action : ∀ c ∈ grantsOf name wants acc, c.action = .grant := by
  intro c hc
  obtain ⟨w, -, hw⟩ := List.mem_filterMap.mp hc
  exact (toGrant_spec hw).1

theorem revokesOf_action : ∀ c ∈ revokesOf name wants acc, c.action = .revoke := by
  intro c hc
  obtain ⟨w, -, hw⟩ := List.mem_filterMap.mp hc
  exact (toInfluxQL_spec hw).1

/-- An administrator, by the commands. -/
theorem admin_after : ((revokesOf name wants acc).foldl Account.apply ((grantsOf name wants acc).foldl Account.apply acc)).admin = true ↔
    (acc.admin = true ∨ ∃ w ∈ wants, w.scope = allScope ∧ w.allowed ≠ []) ∧
      (acc.admin = true → (∃ w ∈ wants, w.scope = allScope ∧ w.name = "") ∧
        ∀ w ∈ wants, w.scope = allScope → w.name = "" → w.allowed ≠ []) := by
  rw [revokes_admin revokesOf_action, grants_admin grantsOf_action]
  have hadd : (∃ c ∈ grantsOf name wants acc, c.on = none) ↔ ∃ w ∈ wants, w.scope = allScope ∧ w.allowed ≠ [] := by
    constructor
    · rintro ⟨c, hc, hon⟩
      obtain ⟨w, hw, hcw⟩ := List.mem_filterMap.mp hc
      exact ⟨w, (mem_adds.mp hw).1, (toGrant_on_none name).mp ⟨c, hcw, hon⟩⟩
    · rintro ⟨w, hw, hscope, hallowed⟩
      obtain ⟨c, hcw, hon⟩ := (toGrant_on_none name).mpr ⟨hscope, hallowed⟩
      exact ⟨c, List.mem_filterMap.mpr ⟨w, mem_adds.mpr ⟨hw, fun h => hallowed h.2⟩, hcw⟩, hon⟩
  have hrevoke : (∀ c ∈ revokesOf name wants acc, c.on ≠ none) ↔ (acc.admin = true →
      (∃ w ∈ wants, w.scope = allScope ∧ w.name = "") ∧ ∀ w ∈ wants, w.scope = allScope → w.name = "" → w.allowed ≠ []) := by
    have hmem : (∀ c ∈ revokesOf name wants acc, c.on ≠ none) ↔ ∀ w ∈ (difference wants acc.shown).1, w.scope ≠ allScope := by
      constructor
      · intro h w hw hscope
        obtain ⟨c, hcw, hon⟩ := (toRevoke_on_none name).mpr hscope
        exact h c (List.mem_filterMap.mpr ⟨w, hw, hcw⟩) hon
      · intro h c hc hon
        obtain ⟨w, hw, hcw⟩ := List.mem_filterMap.mp hc
        exact h w hw ((toRevoke_on_none name).mp ⟨c, hcw, hon⟩)
    rw [hmem]
    constructor
    · intro h hadmin
      constructor
      · by_contra hnone
        refine h ⟨allScope, "", ["ALL"]⟩ (mem_revoked.mpr (.inr ⟨mem_shown.mpr (.inl ⟨hadmin, rfl⟩), ?_⟩)) rfl
        exact fun want hwant hsame => hnone ⟨want, hwant, hsame⟩
      · intro w hw hscope hname hempty
        exact h w (mem_revoked.mpr (.inl ⟨hw, any_shown.mpr (.inl ⟨hscope, hname, hadmin⟩), hempty⟩)) hscope
    · intro h w hw hscope
      rcases mem_revoked.mp hw with ⟨hmem, hany, hempty⟩ | ⟨hmem, hnone⟩
      · rcases any_shown.mp hany with ⟨-, hname, hadmin⟩ | ⟨hdb, -⟩
        · exact (h hadmin).2 w hmem hscope hname hempty
        · rw [hscope] at hdb
          exact absurd hdb (by decide)
      · rcases mem_shown.mp hmem with ⟨hadmin, rfl⟩ | ⟨hdb, -⟩
        · obtain ⟨want, hwant, hsame⟩ := (h hadmin).1
          exact hnone want hwant hsame
        · rw [hscope] at hdb
          exact absurd hdb (by decide)
  rw [hadd, hrevoke]

/-! ### Privileges -/

/-- The scopes and names that `validPermissions` accepts. -/
def Scoped (wants : List Permission) : Prop := ∀ w ∈ wants, w.scope = allScope ∨ w.scope = dbScope

theorem toPriv_nil : toPriv [] = .none := by decide

/-- The grants on a database. -/
theorem filter_grantsOf (h : Scoped wants) : (grantsOf name wants acc).filter (·.on = some db) =
    ((forDb wants db).filter fun w => toPriv w.allowed ≠ .none).map fun w => ⟨.grant, toPriv w.allowed, some db, name⟩ := by
  unfold grantsOf forDb difference
  rw [List.filterMap_filter, List.filter_filterMap, List.filter_filter, ← List.filterMap_eq_map, List.filterMap_filter]
  apply List.filterMap_congr
  intro w hw
  rcases h w hw with hscope | hscope
  · have hne : ¬ allScope = dbScope := by decide
    by_cases hempty : w.allowed = [] <;> simp [toGrant, toInfluxQL, hscope, hempty, hne]
  · have hne : ¬ dbScope = allScope := by decide
    by_cases hempty : w.allowed = []
    · simp [toGrant, hempty, toPriv_nil]
    · by_cases hpriv : toPriv w.allowed = .none
      · simp [toGrant, toInfluxQL, hscope, hempty, hne, hpriv]
      · by_cases hname : w.name = db <;> simp [toGrant, toInfluxQL, hscope, hempty, hne, hpriv, hname]

/-- The revocations on a database. -/
theorem revokesOf_on {c : Command} : c ∈ revokesOf name wants acc ∧ c.on = some db ↔
    acc.privilege db ≠ .none ∧ ((∃ w ∈ forDb wants db, w.allowed = []) ∧ c = ⟨.revoke, .all, some db, name⟩ ∨
      forDb wants db = [] ∧ c = ⟨.revoke, acc.privilege db, some db, name⟩) := by
  have hne : ¬ dbScope = allScope := by decide
  have hrevoke : ∀ w : Permission, w.scope = dbScope → toRevoke name w = if w.allowed = [] then some ⟨.revoke, .all, some w.name, name⟩
      else if toPriv w.allowed = .none then none else some ⟨.revoke, toPriv w.allowed, some w.name, name⟩ := by
    intro w hscope
    simp [toRevoke, toInfluxQL, hscope, hne]
  have hall : ∀ w : Permission, w.scope = allScope → ∀ c ∈ toRevoke name w, c.on = none := by
    intro w hscope c hc
    rw [toRevoke, toInfluxQL, if_pos hscope] at hc
    rw [← Option.some.inj hc]
  have hkept : ∀ p : Privilege, p ≠ .none → p.allowed ≠ [] := by
    intro p hp
    cases p with
    | none => exact absurd rfl hp
    | read | write | all => exact List.cons_ne_nil _ _
  unfold revokesOf
  rw [List.mem_filterMap]
  constructor
  · rintro ⟨⟨w, hw, hc⟩, hon⟩
    rcases mem_revoked.mp hw with ⟨hmem, hany, hempty⟩ | ⟨hmem, hnone⟩
    · rcases any_shown.mp hany with ⟨hscope, -⟩ | ⟨hscope, hpriv⟩
      · rw [hall w hscope c hc] at hon
        cases hon
      · rw [hrevoke w hscope, if_pos hempty] at hc
        obtain rfl := Option.some.inj hc
        obtain rfl := Option.some.inj hon
        exact ⟨hpriv, .inl ⟨⟨w, List.mem_filter.mpr ⟨hmem, by simp [hscope]⟩, hempty⟩, rfl⟩⟩
    · rcases mem_shown.mp hmem with ⟨-, rfl⟩ | ⟨hscope, hpriv, hallowed⟩
      · rw [hall _ rfl c hc] at hon
        cases hon
      · rw [hrevoke w hscope, hallowed, if_neg (hkept _ hpriv), toPriv_allowed, if_neg hpriv] at hc
        obtain rfl := Option.some.inj hc
        obtain rfl := Option.some.inj hon
        refine ⟨hpriv, .inr ⟨List.filter_eq_nil_iff.mpr fun want hwant hsame => ?_, rfl⟩⟩
        have hsame : want.scope = dbScope ∧ want.name = w.name := by simpa using hsame
        exact hnone want hwant ⟨hsame.1.trans hscope.symm, hsame.2⟩
  · rintro ⟨hpriv, ⟨⟨w, hw, hempty⟩, rfl⟩ | ⟨hnil, rfl⟩⟩
    · obtain ⟨hmem, hw⟩ := List.mem_filter.mp hw
      obtain ⟨hscope, rfl⟩ : w.scope = dbScope ∧ w.name = db := by simpa using hw
      refine ⟨⟨w, mem_revoked.mpr (.inl ⟨hmem, any_shown.mpr (.inr ⟨hscope, hpriv⟩), hempty⟩), ?_⟩, rfl⟩
      rw [hrevoke w hscope, if_pos hempty]
    · refine ⟨⟨⟨dbScope, db, (acc.privilege db).allowed⟩, mem_revoked.mpr (.inr ⟨mem_shown.mpr (.inr ⟨rfl, hpriv, rfl⟩), ?_⟩), ?_⟩, rfl⟩
      · intro want hwant hsame
        exact List.filter_eq_nil_iff.mp hnil want hwant (by simpa using hsame)
      · rw [hrevoke _ rfl, if_neg (hkept _ hpriv), toPriv_allowed, if_neg hpriv]

/-- The entry of a list that is granted last. -/
def lastGranted (ws : List Permission) : Option Permission := (ws.filter fun w => toPriv w.allowed ≠ .none).getLast?

/-- The privilege on a database, by the commands. -/
theorem privilege_after (h : Scoped wants) :
    ((revokesOf name wants acc).foldl Account.apply ((grantsOf name wants acc).foldl Account.apply acc)).privilege db =
      if acc.privilege db ≠ .none ∧ ((∃ w ∈ forDb wants db, w.allowed = []) ∨ forDb wants db = []) then .none
      else ((lastGranted (forDb wants db)).map (toPriv ·.allowed)).getD (acc.privilege db) := by
  have hgranted : ((grantsOf name wants acc).foldl Account.apply acc).privilege db =
      ((lastGranted (forDb wants db)).map (toPriv ·.allowed)).getD (acc.privilege db) := by
    rw [grants_privilege grantsOf_action, filter_grantsOf h, List.getLast?_map, Option.map_map]
    rfl
  rw [revokes_privilege revokesOf_action, hgranted]
  · congr 1
    apply propext
    constructor
    · rintro ⟨c, hc⟩
      obtain ⟨hpriv, ⟨hempty, -⟩ | ⟨hnil, -⟩⟩ := revokesOf_on.mp hc
      · exact ⟨hpriv, .inl hempty⟩
      · exact ⟨hpriv, .inr hnil⟩
    · rintro ⟨hpriv, hempty | hnil⟩
      · exact ⟨_, revokesOf_on.mpr ⟨hpriv, .inl ⟨hempty, rfl⟩⟩⟩
      · exact ⟨_, revokesOf_on.mpr ⟨hpriv, .inr ⟨hnil, rfl⟩⟩⟩
  · intro c hc hon
    obtain ⟨-, ⟨-, rfl⟩ | ⟨hnil, rfl⟩⟩ := revokesOf_on.mp ⟨hc, hon⟩
    · exact .inl rfl
    · refine .inr ?_
      rw [hgranted, hnil]
      rfl

end Account

/-! ### What is reached -/

/-- An administrator is asked for. -/
def AsksAdmin (wants : List Permission) : Prop := ∃ w ∈ wants, w.scope = allScope ∧ "ALL" ∈ w.allowed

/-- The user has what the list asks for, and nothing else; other users have what they had. -/
def Reached (u : User) (s s' : Accounts) : Prop :=
  (∃ acc, s'.lookup u.name = some acc ∧ (acc.admin = true ↔ AsksAdmin u.permissions) ∧
    ∀ db, acc.privilege db = toPriv (together (forDb u.permissions db))) ∧
  ∀ n, n ≠ u.name → s'.lookup n = s.lookup n

/-- An administrator keeps being one with a nameless entry for all databases and none of these empty; another user
becomes one with an entry for all databases that is not empty. That is to say what allowing `ALL` says. -/
def AdminAgrees (wants : List Permission) (acc : Account) : Prop :=
  (if acc.admin then (∃ w ∈ wants, w.scope = allScope ∧ w.name = "") ∧
      ∀ w ∈ wants, w.scope = allScope → w.name = "" → w.allowed ≠ []
    else ∃ w ∈ wants, w.scope = allScope ∧ w.allowed ≠ []) ↔ AsksAdmin wants

/-- With something to grant, the last of it is what all entries grant, and no entry is empty when there is a
privilege to revoke. With nothing to grant, a privilege there is needs an empty entry, or none at all. -/
def DatabaseAgrees (ws : List Permission) (cur : Privilege) : Prop :=
  match lastGranted ws with
  | some last => toPriv last.allowed = toPriv (together ws) ∧ (cur ≠ .none → ∀ w ∈ ws, w.allowed ≠ [])
  | none => cur ≠ .none → ws = [] ∨ ∃ w ∈ ws, w.allowed = []

theorem toPriv_eq_none_iff {a : List String} : toPriv a = .none ↔ "READ" ∉ a ∧ "WRITE" ∉ a ∧ "ALL" ∉ a := by
  unfold toPriv
  by_cases hread : "READ" ∈ a <;> by_cases hwrite : "WRITE" ∈ a <;> by_cases hall : "ALL" ∈ a <;> simp [hread, hwrite, hall]

theorem toPriv_together_eq_none_iff {ws : List Permission} : toPriv (together ws) = .none ↔ ∀ w ∈ ws, toPriv w.allowed = .none := by
  simp only [toPriv_eq_none_iff, together, List.mem_flatMap, not_exists, not_and]
  exact ⟨fun h w hw => ⟨h.1 w hw, h.2.1 w hw, h.2.2 w hw⟩, fun h => ⟨fun w hw => (h w hw).1, fun w hw => (h w hw).2.1, fun w hw => (h w hw).2.2⟩⟩

theorem lastGranted_eq_none_iff {ws : List Permission} : lastGranted ws = none ↔ ∀ w ∈ ws, toPriv w.allowed = .none := by
  rw [lastGranted, List.getLast?_eq_none_iff, List.filter_eq_nil_iff]
  simp

theorem databaseAgrees_iff {ws : List Permission} {cur : Privilege} :
    (if cur ≠ .none ∧ ((∃ w ∈ ws, w.allowed = []) ∨ ws = []) then .none
      else ((lastGranted ws).map (toPriv ·.allowed)).getD cur) = toPriv (together ws) ↔ DatabaseAgrees ws cur := by
  unfold DatabaseAgrees
  cases hlast : lastGranted ws with
  | none =>
    have htogether : toPriv (together ws) = .none := toPriv_together_eq_none_iff.mpr (lastGranted_eq_none_iff.mp hlast)
    rw [htogether, Option.map_none, Option.getD_none]
    by_cases hcur : cur = .none
    · simp [hcur]
    · by_cases hempty : (∃ w ∈ ws, w.allowed = []) ∨ ws = []
      · rw [if_pos ⟨hcur, hempty⟩]
        exact iff_of_true rfl fun _ => hempty.symm
      · rw [if_neg fun h => hempty h.2]
        exact iff_of_false hcur fun h => hempty (h hcur).symm
  | some last =>
    have htogether : toPriv (together ws) ≠ .none := by
      rw [Ne, toPriv_together_eq_none_iff, ← lastGranted_eq_none_iff, hlast]
      exact nofun
    have hnil : ws ≠ [] := by
      rintro rfl
      cases hlast
    rw [Option.map_some, Option.getD_some]
    by_cases hempty : cur ≠ .none ∧ ∃ w ∈ ws, w.allowed = []
    · rw [if_pos ⟨hempty.1, .inl hempty.2⟩]
      obtain ⟨hcur, w, hw, hwe⟩ := hempty
      exact iff_of_false htogether.symm fun h => h.2 hcur w hw hwe
    · rw [if_neg fun h => hempty ⟨h.1, h.2.resolve_right hnil⟩]
      exact ⟨fun h => ⟨h, fun hcur w hw hwe => hempty ⟨hcur, w, hw, hwe⟩⟩, And.left⟩

theorem adminAgrees_iff {wants : List Permission} {acc : Account} :
    ((acc.admin = true ∨ ∃ w ∈ wants, w.scope = allScope ∧ w.allowed ≠ []) ∧
      (acc.admin = true → (∃ w ∈ wants, w.scope = allScope ∧ w.name = "") ∧
        ∀ w ∈ wants, w.scope = allScope → w.name = "" → w.allowed ≠ []) ↔ AsksAdmin wants) ↔ AdminAgrees wants acc := by
  unfold AdminAgrees
  cases acc.admin <;> simp

/-- What `validPermissions` lets through. -/
theorem scoped_of_valid {wants : List Permission} (h : validPermissions wants = .ok ()) : Scoped wants := by
  intro w hw
  have hw := Except.forM_ok_iff.mp h w hw
  by_contra hscope
  rw [if_pos (not_or.mp hscope)] at hw
  cases hw

/-- An update that succeeds has reached what was asked for if and only if the entries agree with what the user was. -/
theorem update_reaches_iff {u : User} (hpass : u.passwd = "") (hvalid : validPermissions u.permissions = .ok ())
    {r : ℕ → Reply} {s s' : Accounts} (hrun : (Client.update u).through r s = (.ok (), s')) :
    Reached u s s' ↔ ∀ acc, s.lookup u.name = some acc →
      AdminAgrees u.permissions acc ∧ ∀ db, DatabaseAgrees (forDb u.permissions db) (acc.privilege db) := by
  have halone := (update_stops u).run_eq hrun
  have hupdate := update_run (s := s) hpass
  cases hlookup : s.lookup u.name with
  | none =>
    rw [hlookup] at hupdate
    exact absurd (congrArg Prod.fst (halone.symm.trans hupdate)) nofun
  | some acc =>
    rw [hlookup] at hupdate
    obtain ⟨s₁, hrun₁, hacc, hrest⟩ := hupdate
    obtain ⟨-, rfl⟩ := Prod.mk.inj (halone.symm.trans hrun₁)
    have hscoped := scoped_of_valid hvalid
    constructor
    · rintro ⟨⟨acc', hacc', hadmin, hdbs⟩, -⟩ acc₁ hacc₁
      obtain rfl := Option.some.inj hacc₁
      obtain rfl := Option.some.inj (hacc.symm.trans hacc')
      rw [admin_after] at hadmin
      refine ⟨adminAgrees_iff.mp hadmin, fun db => databaseAgrees_iff.mp ?_⟩
      rw [← hdbs db, privilege_after hscoped]
    · intro h
      obtain ⟨hadmin, hdbs⟩ := h acc rfl
      refine ⟨⟨_, hacc, ?_, fun db => ?_⟩, hrest⟩
      · rw [admin_after]
        exact adminAgrees_iff.mpr hadmin
      · rw [privilege_after hscoped]
        exact databaseAgrees_iff.mpr (hdbs db)

/-- A user who reads one database. -/
def reader : Accounts := AList.insert "jo" ⟨false, AList.insert "telegraf" .read ∅⟩ ∅

/-- The user is to write it. -/
def writes : User := ⟨"jo", "", [⟨dbScope, "telegraf", ["WRITE"]⟩]⟩

theorem update_reaches_writes :
    Reached writes reader ((Client.update writes).through (fun _ => .answered) reader).2 := by
  refine (update_reaches_iff (u := writes) rfl rfl (r := fun _ => .answered) (Prod.ext rfl rfl)).mpr fun acc hacc => ?_
  obtain rfl := Option.some.inj hacc
  have hperms : ∀ w ∈ writes.permissions, w.scope ≠ allScope := by decide
  refine ⟨iff_of_false ?_ ?_, fun db => ?_⟩
  · rintro ⟨w, hw, hscope, -⟩
    exact hperms w hw hscope
  · rintro ⟨w, hw, hscope, -⟩
    exact hperms w hw hscope
  · by_cases hdb : "telegraf" = db
    · subst hdb
      exact ⟨rfl, fun _ => by decide⟩
    · have hnil : forDb writes.permissions db = [] := by simp [forDb, writes, hdb]
      rw [hnil]
      exact fun _ => .inl rfl

/-- The user is to read all databases. -/
def readsAll : User := ⟨"jo", "", [⟨allScope, "", ["READ"]⟩]⟩

/-- Any entry for all databases makes an administrator. -/
theorem update_makes_admin : validPermissions readsAll.permissions = .ok () ∧
    ∃ s', (Client.update readsAll).through (fun _ => .answered) reader = (.ok (), s') ∧
      (s'.lookup "jo").map Account.admin = some true ∧ ¬ Reached readsAll reader s' := by
  refine ⟨rfl, _, Prod.ext rfl rfl, rfl, ?_⟩
  rintro ⟨⟨acc, hacc, hadmin, -⟩, -⟩
  obtain rfl := Option.some.inj hacc
  obtain ⟨w, hw, -, hall⟩ := hadmin.mp rfl
  revert hall
  obtain rfl := List.mem_singleton.mp hw
  decide

end Influx
end Chronograf
