/-
# No privilege escalation

A user who is not a super admin and works in one organization changes nobody's
SuperAdmin flag and nobody's roles in other organizations, and creates no user
that has either.

Key definitions: `NoEscalation`.
Key theorem: `no_privilege_escalation`.
-/
import Chronograf.Server.Authorization
import Chronograf.Server.UserEffects

namespace Chronograf
namespace Server

/-- From `db` to `db'`, flags and roles outside the organization stay what they
were, and users that are new have none. -/
structure NoEscalation (org : String) (db db' : Db) : Prop where
  kept : ∀ (k : ℕ) u, db.users.get k = some u →
    ∃ u', db'.users.get k = some u' ∧ u'.superAdmin = u.superAdmin ∧ u'.rolesOutside org = u.rolesOutside org
  created : ∀ (k : ℕ) u', db.users.get k = none → db'.users.get k = some u' →
    u'.superAdmin = false ∧ u'.rolesOutside org = []

namespace NoEscalation

variable {org : String} {db : Db} {usr v : User}

theorem refl (org : String) (db : Db) : NoEscalation org db db where
  kept _ u h := ⟨u, h, rfl, rfl⟩
  created _ _ hnone h := by
    rw [hnone] at h
    cases h

/-- A stored user is replaced. -/
theorem put (hget : db.users.get usr.id = some usr) (hid : v.id = usr.id) (hflag : v.superAdmin = usr.superAdmin)
    (hroles : v.rolesOutside org = usr.rolesOutside org) :
    NoEscalation org db { db with users := db.users.put v } := by
  have hput : (db.users.put v).get usr.id = some v := by
    rw [← hid]
    exact Bucket.get_put_self (by simp)
  have hother : ∀ k : ℕ, k ≠ usr.id → (db.users.put v).get k = db.users.get k := fun k hk =>
    Bucket.get_put_ne (by rw [key_user, hid]; exact hk)
  refine ⟨fun k u hu => ?_, fun k u' hnone hu' => ?_⟩
  · by_cases hk : k = usr.id
    · subst hk
      obtain rfl : usr = u := Option.some.inj (hget.symm.trans hu)
      exact ⟨v, hput, hflag, hroles⟩
    · exact ⟨u, (hother k hk).trans hu, rfl, rfl⟩
  · have hk : k ≠ usr.id := by
      rintro rfl
      rw [hget] at hnone
      cases hnone
    have hstored : db.users.get k = some u' := (hother k hk).symm.trans hu'
    rw [hnone] at hstored
    cases hstored

/-- A user is added under the next number. -/
theorem insert (hdb : db.users.Issued) (hid : v.id = db.users.seq + 1) (hflag : v.superAdmin = false)
    (hroles : v.rolesOutside org = []) :
    NoEscalation org db { db with users := db.users.nextSequence.put v } := by
  have hput : (db.users.nextSequence.put v).get (db.users.seq + 1) = some v := by
    rw [← hid]
    exact Bucket.get_put_self (by simp)
  have hother : ∀ k : ℕ, k ≠ db.users.seq + 1 → (db.users.nextSequence.put v).get k = db.users.get k := by
    intro k hk
    rw [Bucket.get_put_ne (by rw [key_user, hid]; exact hk), Bucket.get_nextSequence]
  refine ⟨fun k u hu => ?_, fun k u' hnone hu' => ?_⟩
  · exact ⟨u, (hother k (hdb.ne_next hu)).trans hu, rfl, rfl⟩
  · by_cases hk : k = db.users.seq + 1
    · subst hk
      obtain rfl : v = u' := Option.some.inj (hput.symm.trans hu')
      exact ⟨hflag, hroles⟩
    · have hstored : db.users.get k = some u' := (hother k hk).symm.trans hu'
      rw [hnone] at hstored
      cases hstored

end NoEscalation

/-- No request for users that somebody makes in the organization `org`, without
being a super admin, changes a flag or a role in another organization. -/
theorem no_privilege_escalation (s : Service) (org : String) (ctx : Context) (hctx : InOrganization ctx org)
    (hsuper : hasSuperAdminContext ctx = false) (db : Db) (hdb : db.users.Issued) (call : UserCall) (oid : String) :
    NoEscalation org db ((call.handler s oid).after ctx db) := by
  have hserver : ¬ hasServerContext ctx = true := by simp [hctx.server]
  have hflags : ∀ flag : Bool, (flag = true → hasSuperAdminContext ctx = true) → flag = false := by
    intro flag h
    by_contra hflag
    rw [h (Bool.eq_true_of_not_eq_false hflag)] at hsuper
    cases hsuper
  have hsame : ∀ org', InOrganization ctx org' → org' = org := fun org' h =>
    Option.some.inj (h.organization.symm.trans hctx.organization)
  have heffect := userCall_effect s ctx db oid call
  generalize (call.handler s oid).after ctx db = db' at heffect ⊢
  cases heffect with
  | nothing => exact .refl org db
  | added _ u hlogin hroles hadmin horg =>
    exact .insert hdb rfl (hflags _ hadmin) (User.filter_outside (horg org hctx))
  | joined _ org' usr u hctx' hlogin hnew hroles hadmin horg =>
    obtain rfl := hsame org' hctx'
    obtain ⟨hmem, -⟩ := Bolt.UsersStore.findLogin_some hlogin
    have hget : db.users.get usr.id = some usr := Bucket.get_of_mem hmem
    refine .put hget rfl ?_ (User.rolesOutside_setRoles rfl horg)
    show (usr.superAdmin || u.superAdmin) = usr.superAdmin
    rw [hflags _ hadmin, Bool.or_false]
  | updated _ usr rs flag h => exact absurd h hserver
  | updatedIn _ org' usr rs flag hctx' hget hroles horg hflag =>
    obtain rfl := hsame org' hctx'
    exact .put hget rfl (hflag.kept hsuper) (User.rolesOutside_setRoles rfl horg)
  | removed usr h => exact absurd h hserver
  | left _ org' usr hctx' hget =>
    obtain rfl := hsame org' hctx'
    exact .put hget rfl rfl (User.rolesOutside_setRoles rfl (by simp))

theorem exampleDb_issued : exampleDb.users.Issued := Bucket.Issued.empty.put_next rfl

/-- An editor tries to become a super admin and an admin. -/
theorem no_privilege_escalation_example :
    NoEscalation "default" exampleDb
      (((UserCall.updateUser (some ⟨"", "", "", true, some [⟨adminRoleName, "default"⟩]⟩) (.ok 1)).handler
        exampleService "default").after { organization := some "default", user := some exampleEditor } exampleDb) :=
  no_privilege_escalation exampleService "default" { organization := some "default", user := some exampleEditor }
    ⟨rfl, rfl⟩ rfl exampleDb exampleDb_issued
    (.updateUser (some ⟨"", "", "", true, some [⟨adminRoleName, "default"⟩]⟩) (.ok 1)) "default"

end Server
end Chronograf
