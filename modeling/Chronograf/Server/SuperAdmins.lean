/-
# Whether a super admin remains

`UpdateUser` keeps a super admin from giving the status up, so that there is
always one. Of all requests for users there is one that gets around this: the
only super admin removes itself through the raw route.

Key definitions: `HasSuperAdmin`, `RemovesLast`.
Key theorems: `userMessage_cases`, `super_admin_remains_iff`.
-/
import Chronograf.Lib.Runs
import Chronograf.Server.Authorization
import Chronograf.Server.Reads
import Chronograf.Server.UserEffects
import Mathlib.Data.List.Infix

namespace Chronograf
namespace Server

open Organizations.UsersStore (merged)

def HasSuperAdmin (db : Db) : Prop := ∃ u ∈ db.users.recs, u.superAdmin = true

instance (db : Db) : Decidable (HasSuperAdmin db) :=
  inferInstanceAs (Decidable (∃ u ∈ db.users.recs, u.superAdmin = true))

/-- The one super admin of the store asks to be removed, in the route for super admins. -/
structure RemovesLast (db : Db) (m : UserMessage) : Prop where
  route : m.route = .raw
  self : ∃ p org u given, m.principal = some p ∧ Granted db superAdminStatus p org u given ∧
    m.call = .removeUser (.ok u.id) ∧ ∀ w ∈ db.users.recs, w.superAdmin = true → w = u

/-- The route for super admins lets nobody else through. -/
theorem Granted.superAdmin {db : Db} {p : Principal} {org : String} {u : User} {given : String}
    (h : Granted db superAdminStatus p org u given) : u.superAdmin = true := by
  rcases h.role with ⟨hsuper, -⟩ | ⟨-, r, -, ⟨i, j, hi, -⟩, -⟩
  · exact hsuper
  · have hnone : rank superAdminStatus = none := by decide
    rw [hnone] at hi
    cases hi

/-! ### What reaches a handler -/

theorem rawStoreAccess_after (next : Handler) {ctx : Context} (db : Db) (hserver : hasServerContext ctx = false) :
    (rawStoreAccess next).after ctx db =
      if hasSuperAdminContext ctx = true then next.after (serverContext ctx) db else db := by
  unfold Handler.after rawStoreAccess
  simp only [hserver, Bool.false_eq_true, if_false]
  split_ifs <;> rfl

/-- With authentication on, the token comes first. -/
theorem userMessage_after {s : Service} (hauth : s.useAuth = true) (m : UserMessage) (db : Db) :
    m.after s db = (authorizedToken m.principal (m.route.serve s m.call)).after {} db := by
  unfold UserMessage.after UserMessage.handler authAPI
  rw [if_pos hauth]

/-- A request for users changes nothing, or it reaches its handler with a granted
context: in an organization's route as it is, in the raw route, for a super
admin, as the server's. -/
theorem userMessage_cases (s : Service) (hauth : s.useAuth = true) (m : UserMessage) (db : Db) :
    m.after s db = db ∨ ∃ p org u given, m.principal = some p ∧
      ((∃ oid, m.route = .organization oid ∧ Granted db adminRoleName p org u given ∧
        m.after s db = (m.call.handler s oid).after ((Context.withPrincipal {} p).granted org u given) db) ∨
      (m.route = .raw ∧ Granted db superAdminStatus p org u given ∧ u.superAdmin = true ∧ m.after s db =
        (m.call.handler s "").after (serverContext ((Context.withPrincipal {} p).granted org u given)) db)) := by
  obtain ⟨principal, route, call⟩ := m
  rw [userMessage_after hauth]
  cases principal with
  | none => exact .inl rfl
  | some p =>
    have hctx : hasServerContext (Context.withPrincipal {} p) = false := rfl
    cases route with
    | organization oid =>
      rcases authorize_cases s adminRoleName db hauth hctx with ⟨p', org, u, given, hp, hg, hrun⟩ | ⟨r, -, hrun⟩
      · obtain rfl : p = p' := Option.some.inj hp
        have hafter := congrArg Prod.snd (Tx.run_bind_ok (f := routeMatchesPrincipal s oid (call.handler s oid)) hrun)
        rcases routeMatchesPrincipal_after ((Context.withPrincipal {} p).granted org u given) s oid
          (call.handler s oid) db with h | h
        · exact .inl (hafter.trans h)
        · exact .inr ⟨p, org, u, given, rfl, .inl ⟨oid, rfl, hg, hafter.trans h⟩⟩
      · have hafter := congrArg Prod.snd (Tx.run_bind_error (f := routeMatchesPrincipal s oid (call.handler s oid)) hrun)
        exact .inl hafter
    | raw =>
      rcases authorize_cases s superAdminStatus db hauth hctx with ⟨p', org, u, given, hp, hg, hrun⟩ | ⟨r, -, hrun⟩
      · obtain rfl : p = p' := Option.some.inj hp
        have hafter := congrArg Prod.snd (Tx.run_bind_ok (f := rawStoreAccess (call.handler s "")) hrun)
        have hctx' : hasServerContext ((Context.withPrincipal {} p).granted org u given) = false := rfl
        have hraw := rawStoreAccess_after (call.handler s "") db hctx'
        rw [if_pos (by exact hg.superAdmin)] at hraw
        exact .inr ⟨p, org, u, given, rfl, .inr ⟨rfl, hg, hg.superAdmin, hafter.trans hraw⟩⟩
      · have hafter := congrArg Prod.snd (Tx.run_bind_error (f := rawStoreAccess (call.handler s "")) hrun)
        exact .inl hafter

/-! ### What a request does to the super admins -/

section Step

theorem user_of_superAdmin {ctx : Context} (h : hasSuperAdminContext ctx = true) :
    ∃ u, ctx.user = some u ∧ u.superAdmin = true := by
  unfold hasSuperAdminContext hasUserContext at h
  cases huser : ctx.user with
  | none => rw [huser] at h; cases h
  | some u => exact ⟨u, rfl, by rw [huser] at h; exact h⟩

variable {db : Db} {w v : User}

theorem HasSuperAdmin.of_other (hw : w ∈ db.users.recs) (hsuper : w.superAdmin = true) (hne : w.id ≠ v.id) :
    HasSuperAdmin { db with users := db.users.put v } :=
  ⟨w, (Bucket.mem_put (by simp)).mpr (.inr ⟨hw, hne⟩), hsuper⟩

theorem HasSuperAdmin.of_put (hsuper : v.superAdmin = true) :
    HasSuperAdmin { db with users := db.users.put v } :=
  ⟨v, (Bucket.mem_put (by simp)).mpr (.inl rfl), hsuper⟩

/-- A stored user is replaced by one that is a super admin if it was one. -/
theorem HasSuperAdmin.replace {usr : User} (h : HasSuperAdmin db) (hget : db.users.get usr.id = some usr)
    (hid : v.id = usr.id) (hv : usr.superAdmin = true → v.superAdmin = true) :
    HasSuperAdmin { db with users := db.users.put v } := by
  obtain ⟨w, hw, hsuper⟩ := h
  by_cases hk : w.id = usr.id
  · have hwu : w = usr := Bucket.eq_of_key hw (Bucket.get_some hget).1 hk
    exact .of_put (hv (hwu ▸ hsuper))
  · exact .of_other hw hsuper (by rw [hid]; exact hk)

/-- A flag that may be changed: whoever takes it from the user is another super admin. -/
theorem HasSuperAdmin.flag {ctx : Context} {usr : User} {flag : Bool} (h : HasSuperAdmin db)
    (huser : ∀ u, ctx.user = some u → u ∈ db.users.recs) (hget : db.users.get usr.id = some usr)
    (hflag : FlagAllowed ctx usr flag) (hid : v.id = usr.id) (hv : v.superAdmin = flag) :
    HasSuperAdmin { db with users := db.users.put v } := by
  by_cases hkept : usr.superAdmin = true → flag = true
  · exact h.replace hget hid fun hsuper => hv.trans (hkept hsuper)
  · obtain ⟨hsuper, hlost⟩ := Classical.not_imp.mp hkept
    have hadmin : hasSuperAdminContext ctx = true := by
      by_contra hctx
      exact hlost ((hflag.kept (Bool.eq_false_iff.mpr hctx)).trans hsuper)
    obtain ⟨u, hu, husuper⟩ := user_of_superAdmin hadmin
    have hne : u.id ≠ v.id := by
      rw [hid]
      exact fun hk => hlost (hflag.own u hu hk hsuper)
    exact .of_other (huser u hu) husuper hne

end Step

/-- What a call leaves still has a super admin, unless it removes the only one. -/
theorem UserEffect.hasSuperAdmin {ctx : Context} {db db' : Db} {call : UserCall} (h : UserEffect ctx db call db')
    (hdb : db.users.Issued) (hsuper : HasSuperAdmin db) (huser : ∀ u, ctx.user = some u → u ∈ db.users.recs) :
    HasSuperAdmin db' ∨ ∃ usr, call = .removeUser (.ok usr.id) ∧ hasServerContext ctx = true ∧
      ∀ w ∈ db.users.recs, w.superAdmin = true → w = usr := by
  cases h with
  | nothing => exact .inl hsuper
  | added _ u hlogin hroles hadmin horg =>
    obtain ⟨w, hw, hwsuper⟩ := hsuper
    have hne : w.id ≠ db.users.seq + 1 := hdb.ne_next (Bucket.get_of_mem hw)
    exact .inl ⟨w, (Bucket.mem_put (by simp)).mpr (.inr ⟨hw, hne⟩), hwsuper⟩
  | joined _ org usr u hctx hlogin hnew hroles hadmin horg =>
    obtain ⟨hmem, -⟩ := Bolt.UsersStore.findLogin_some hlogin
    have hget : db.users.get usr.id = some usr := Bucket.get_of_mem hmem
    refine .inl (hsuper.replace hget rfl fun husr => ?_)
    show (usr.superAdmin || u.superAdmin) = true
    rw [husr, Bool.true_or]
  | updated _ usr rs flag hctx hget hroles hflag => exact .inl (hsuper.flag huser hget hflag rfl rfl)
  | updatedIn _ org usr rs flag hctx hget hroles horg hflag =>
    exact .inl (hsuper.flag huser hget hflag rfl rfl)
  | left _ org usr hctx hget => exact .inl (hsuper.replace hget rfl fun husr => husr)
  | removed usr hctx hget =>
    by_cases hother : ∃ w ∈ db.users.recs, w.superAdmin = true ∧ w ≠ usr
    · obtain ⟨w, hw, hwsuper, hne⟩ := hother
      have hk : w.id ≠ usr.id := fun hk => hne (Bucket.eq_of_key hw (Bucket.get_some hget).1 hk)
      exact .inl ⟨w, Bucket.mem_delete.mpr ⟨hw, hk⟩, hwsuper⟩
    · refine .inr ⟨usr, rfl, hctx, fun w hw hwsuper => ?_⟩
      by_contra hne
      exact hother ⟨w, hw, hwsuper, hne⟩

/-- The numbers of stored users stay ones the bucket gave out. -/
theorem UserEffect.issued {ctx : Context} {db db' : Db} {call : UserCall} (h : UserEffect ctx db call db')
    (hdb : db.users.Issued) : db'.users.Issued := by
  cases h with
  | nothing => exact hdb
  | added _ u hlogin hroles hadmin horg => exact hdb.put_next rfl
  | joined _ org usr u hctx hlogin hnew hroles hadmin horg =>
    obtain ⟨hmem, -⟩ := Bolt.UsersStore.findLogin_some hlogin
    have hget : db.users.get usr.id = some usr := Bucket.get_of_mem hmem
    exact hdb.put_of_get (r := merged org usr u) hget
  | updated _ usr rs flag hctx hget hroles hflag =>
    exact hdb.put_of_get (r := { usr with roles := rs, superAdmin := flag }) hget
  | updatedIn _ org usr rs flag hctx hget hroles horg hflag =>
    exact hdb.put_of_get (r := { usr with roles := usr.setRoles org rs, superAdmin := flag }) hget
  | left _ org usr hctx hget => exact hdb.put_of_get (r := { usr with roles := usr.setRoles org [] }) hget
  | removed usr hctx hget => exact hdb.delete

/-! ### Runs -/

section Runs

variable {s : Service} {db : Db}

theorem issued_after (hauth : s.useAuth = true) (m : UserMessage) (hdb : db.users.Issued) :
    (m.after s db).users.Issued := by
  rcases userMessage_cases s hauth m db with h | ⟨p, org, u, given, -, ⟨oid, -, -, h⟩ | ⟨-, -, -, h⟩⟩
  · rw [h]
    exact hdb
  · rw [h]
    exact (userCall_effect s _ db oid m.call).issued hdb
  · rw [h]
    exact (userCall_effect s _ db "" m.call).issued hdb

/-- The handler of the raw route removes a stored user. -/
theorem removeUser_raw {ctx : Context} {u : User} (hctx : hasServerContext ctx = true)
    (hget : db.users.get u.id = some u) :
    (removeUser (.ok u.id)).after ctx db = { db with users := db.users.delete u.id } := by
  have hstore : Store.users ctx = Bolt.usersStore := Store.select_server hctx
  have hread : (Bolt.UsersStore.get ctx { id := u.id }).run db = (.ok u, db) := by
    show (Bolt.UsersStore.getID u.id).run db = _
    rw [Bolt.UsersStore.run_getID, hget]
  have hdelete := Bolt.UsersStore.run_delete_of_some ctx hget
  unfold Handler.after removeUser paramUserID
  simp only [hstore, Bolt.usersStore_get, Bolt.usersStore_delete, Tx.run_bind, Tx.run_ofExcept, Except.mapError,
    Tx.run_mapError, hread, hdelete]
  rfl

/-- The last super admin that removes itself leaves none. -/
theorem not_hasSuperAdmin_of_removesLast (hauth : s.useAuth = true) {m : UserMessage} (h : RemovesLast db m) :
    ¬ HasSuperAdmin (m.after s db) := by
  obtain ⟨hroute, p, org, u, given, hp, hg, hcall, honly⟩ := h
  rintro ⟨w, hw, hwsuper⟩
  obtain ⟨principal, route, call⟩ := m
  obtain rfl : principal = some p := hp
  obtain rfl : route = .raw := hroute
  obtain rfl : call = .removeUser (.ok u.id) := hcall
  have hctx : hasServerContext (Context.withPrincipal {} p) = false := rfl
  have hrun := authorize_of_granted hauth hctx rfl hg
  have hafter := congrArg Prod.snd (Tx.run_bind_ok (f := rawStoreAccess (removeUser (.ok u.id))) hrun)
  have hctx' : hasServerContext ((Context.withPrincipal {} p).granted org u given) = false := rfl
  have hraw := rawStoreAccess_after (removeUser (.ok u.id)) db hctx'
  obtain ⟨hmem, -⟩ := Bolt.UsersStore.findLogin_some hg.user
  rw [if_pos (by exact hg.superAdmin), removeUser_raw rfl (Bucket.get_of_mem hmem)] at hraw
  have hresult := (userMessage_after hauth ⟨some p, .raw, .removeUser (.ok u.id)⟩ db).trans (hafter.trans hraw)
  rw [hresult] at hw
  obtain ⟨hw, hne⟩ := Bucket.mem_delete.mp hw
  exact hne (congrArg User.id (honly w hw hwsuper))

/-- One request keeps a super admin in the store, unless it is the last one's own removal. -/
theorem super_admin_step_iff (hauth : s.useAuth = true) (m : UserMessage) (hdb : db.users.Issued)
    (hsuper : HasSuperAdmin db) : HasSuperAdmin (m.after s db) ↔ ¬ RemovesLast db m := by
  constructor
  · exact fun hafter hlast => not_hasSuperAdmin_of_removesLast hauth hlast hafter
  · intro hlast
    rcases userMessage_cases s hauth m db with h | ⟨p, org, u, given, hp, ⟨oid, hroute, hg, h⟩ | ⟨hroute, hg, hadmin, h⟩⟩
    · rw [h]
      exact hsuper
    · rw [h]
      obtain ⟨hmem, -⟩ := Bolt.UsersStore.findLogin_some hg.user
      have huser : ∀ v, ((Context.withPrincipal {} p).granted org u given).user = some v → v ∈ db.users.recs := by
        intro v hv
        rwa [← Option.some.inj hv]
      rcases (userCall_effect s _ db oid m.call).hasSuperAdmin hdb hsuper huser with hkept | ⟨usr, -, hserver, -⟩
      · exact hkept
      · cases hserver
    · rw [h]
      obtain ⟨hmem, -⟩ := Bolt.UsersStore.findLogin_some hg.user
      have huser : ∀ v, (serverContext ((Context.withPrincipal {} p).granted org u given)).user = some v →
          v ∈ db.users.recs := by
        intro v hv
        rwa [← Option.some.inj hv]
      rcases (userCall_effect s _ db "" m.call).hasSuperAdmin hdb hsuper huser with hkept | ⟨usr, hcall, -, honly⟩
      · exact hkept
      · have husr : u = usr := honly u hmem hadmin
        subst husr
        exact absurd ⟨hroute, p, org, u, given, hp, hg, hcall, honly⟩ hlast

/-- Along a run of requests for users there is a super admin after every one of
them if and only if no request is the removal of the last super admin by itself
in the raw route. -/
theorem super_admin_remains_iff (s : Service) (hauth : s.useAuth = true) (db : Db) (hdb : db.users.Issued)
    (hsuper : HasSuperAdmin db) (ms : List UserMessage) :
    (∀ pre, pre <+: ms → HasSuperAdmin (UserMessage.run s db pre)) ↔
      ∀ pre m, pre ++ [m] <+: ms → ¬ RemovesLast (UserMessage.run s db pre) m :=
  foldl_keeps_iff (f := UserMessage.after s) (I := fun db => db.users.Issued) (fun _ m h => issued_after hauth m h)
    (fun _ m h hs => super_admin_step_iff hauth m h hs) hdb hsuper ms

end Runs

def exampleRoot : User := ⟨1, "root", [⟨memberRoleName, "default"⟩], "github", "oauth2", true⟩

/-- A store after the first user, who is a super admin, logged in. -/
def rootDb : Db := { Db.opened with users := Bucket.empty.nextSequence.put exampleRoot }

/-- A request of the super admin in the raw route. -/
def rootMessage (call : UserCall) : UserMessage := ⟨some ⟨"root", "github", "", ""⟩, .raw, call⟩

/-- The only super admin removes itself. -/
theorem last_super_admin_removed : HasSuperAdmin rootDb ∧
    ¬ HasSuperAdmin (UserMessage.run exampleService rootDb [rootMessage (.removeUser (.ok 1))]) := by decide

theorem super_admin_remains_iff_example : ¬ RemovesLast rootDb (rootMessage (.removeUser (.ok 2))) := by
  refine (super_admin_remains_iff exampleService rfl rootDb (Bucket.Issued.empty.put_next rfl) (by decide)
    [rootMessage (.removeUser (.ok 2))]).mp (fun pre hpre => ?_) [] _ (List.prefix_refl _)
  have hmem := (List.mem_inits _ _).mpr hpre
  simp only [List.inits, List.map_cons, List.map_nil, List.mem_cons, List.not_mem_nil, or_false] at hmem
  rcases hmem with rfl | rfl
  · decide
  · decide

end Server
end Chronograf
