/-
# The lookups of the handlers

Whichever store the context gives, looking something up in it changes nothing.

Key theorems: `users_get_reads`, `organizations_get_reads`, `authorize_reads`,
`authorizedUser_after`.
-/
import Chronograf.Organizations.Lens
import Chronograf.Server.Auth

namespace Chronograf
namespace Server

open Tx (Reads)

variable (ids : ℕ → String) (ctx : Context)

/-- A chosen store has what the store, its facades and the refusing store have. -/
theorem select_induction {α : Type} {C : α → Prop} {store noop : α} {facade : String → α} (h1 : C store)
    (h2 : ∀ org, C (facade org)) (h3 : C noop) : C (Store.select ctx store facade noop) := by
  unfold Store.select
  split_ifs
  · exact h1
  · split
    · exact h2 _
    · exact h3

theorem organizations_induction {C : OrganizationsStore Db → Prop} (h1 : C (Bolt.organizationsStore ids))
    (h2 : ∀ org, C (Organizations.newOrganizationsStore (Bolt.organizationsStore ids) org))
    (h3 : C Noop.organizationsStore) : C (Store.organizations ids ctx) := by
  unfold Store.organizations
  split_ifs
  · exact h1
  · exact h1
  · split
    · exact h2 _
    · exact h3

theorem bolt_users_get_reads (q : UserQuery) : Reads (Bolt.UsersStore.get ctx q) :=
  fun db => Bolt.UsersStore.run_get_snd ctx q db

theorem users_get_reads (q : UserQuery) : Reads ((Store.users ctx).get ctx q) := by
  refine select_induction (C := fun s : UsersStore Db => Reads (s.get ctx q)) ctx (bolt_users_get_reads ctx q) (fun org => ?_) .fail
  refine .bind .ofExcept fun _ => .bind (bolt_users_get_reads ctx q) fun usr => ?_
  exact .ite .fail .pure

theorem bolt_organizations_get_reads (q : OrganizationQuery) : Reads (Bolt.OrganizationsStore.get ctx q) :=
  fun db => Bolt.OrganizationsStore.run_get_snd ctx q db

theorem organizations_get_reads (q : OrganizationQuery) : Reads ((Store.organizations ids ctx).get ctx q) := by
  refine organizations_induction (C := fun s : OrganizationsStore Db => Reads (s.get ctx q)) ids ctx (bolt_organizations_get_reads ctx q)
    (fun org => ?_) .fail
  refine .bind .ofExcept fun _ => .bind (bolt_organizations_get_reads ctx q) fun d => ?_
  exact .ite .fail .pure

theorem organizations_default_reads : Reads ((Store.organizations ids ctx).defaultOrganization ctx) :=
  organizations_induction (C := fun s : OrganizationsStore Db => Reads (s.defaultOrganization ctx)) ids ctx .view
    (fun _ => .bind .ofExcept fun _ => .view) .fail

theorem dashboards_all_reads : Reads ((Store.dashboards ids ctx).all ctx) :=
  select_induction (C := fun s : DashboardsStore Db => Reads (s.all ctx)) ctx .view
    (fun _ => .bind .ofExcept fun _ => .bind .view fun _ => .pure) .fail

theorem authorize_reads (s : Service) (required : String) : Reads (authorize s required ctx) := by
  unfold authorize
  refine .bind (.mapError (organizations_default_reads _ _)) fun defaultOrg => ?_
  refine .ite .pure ?_
  refine .bind .ofExcept fun p => .bind .ofExcept fun scheme => ?_
  refine .bind (.mapError (organizations_get_reads _ _ _)) fun _ => ?_
  refine .bind (.mapError (users_get_reads _ _)) fun u => ?_
  refine .ite .pure (.bind (.mapError (users_get_reads _ _)) fun u' => ?_)
  refine .ite ?_ .fail
  split
  · exact .pure
  · exact .fail

/-- Behind `AuthorizedUser`, nothing happens or the next handler runs. -/
theorem authorizedUser_after (s : Service) (required : String) (next : Handler) (db : Db) :
    (authorizedUser s required next).after ctx db = db ∨
      ∃ ctx', (authorizedUser s required next).after ctx db = next.after ctx' db := by
  have hreads := authorize_reads ctx s required db
  rcases hrun : (authorize s required ctx).run db with ⟨⟨r⟩ | ⟨ctx'⟩, db'⟩
  · rw [hrun] at hreads
    obtain rfl : db' = db := hreads
    exact .inl (congrArg Prod.snd (Tx.run_bind_error hrun))
  · rw [hrun] at hreads
    obtain rfl : db' = db := hreads
    exact .inr ⟨ctx', congrArg Prod.snd (Tx.run_bind_ok hrun)⟩

/-- Behind `RouteMatchesPrincipal`, nothing happens or the next handler runs. -/
theorem routeMatchesPrincipal_after (s : Service) (oid : String) (next : Handler) (db : Db) :
    (routeMatchesPrincipal s oid next).after ctx db = db ∨
      (routeMatchesPrincipal s oid next).after ctx db = next.after ctx db := by
  unfold Handler.after routeMatchesPrincipal
  split_ifs with hauth
  · exact .inr rfl
  · let C : Db → Prop := fun db' => db' = db ∨ db' = ((next ctx).run db).2
    have horg : ∀ org : String, C ((if oid ≠ org then Tx.fail notAuthorized else next ctx).run db).2 := by
      intro org
      split_ifs
      · exact .inl rfl
      · exact .inr rfl
    refine Tx.leaves_ofExcept_bind (C := C) (.inl rfl) fun p _ => ?_
    by_cases hblank : p.organization = ""
    · simp only [hblank, if_true]
      have hdb := organizations_default_reads s.ids ctx db
      exact Tx.leaves_mapError_bind (C := C) hdb (.inl rfl) fun org _ => horg org.id
    · simp only [hblank, if_false]
      exact horg p.organization

end Server
end Chronograf
