/-
# The roles of the first login

`mapPrincipalToRoles` goes through the mappings once and gives a role for an
organization the first time that a mapping leads to it. What it ends with is
known from which mappings there are alone: one role for every stored
organization that some mapping gives the principal.

Key definitions: `Mapping.Matches`, `Mapped`.
Key theorems: `mem_splitGroups_iff`, `mapRoles_mapped`, `mapped_roles`.
-/
import Chronograf.Server.OneRole

namespace Chronograf
namespace Server

variable {s : Service} {ctx : Context} {p : Principal} {db : Db} {m : Mapping} {ms ms' : List Mapping}
  {roles roles' : List Role}

/-! ### Mappings and principals -/

/-- The text is one of the parts that the commas of `group` separate. -/
def OneOfGroups (text group : String) : Prop :=
  ∃ groups : List String, groups ≠ [] ∧ [','].intercalate (groups.map String.toList) = group.toList ∧
    (∀ g ∈ groups, ',' ∉ g.toList) ∧ text ∈ groups

/-- The mapping is one for the principal: each of the provider, the scheme and
the group is the principal's, or any. -/
structure Matches (m : Mapping) (p : Principal) : Prop where
  provider : m.provider = mappingWildcard ∨ m.provider = p.issuer
  scheme : m.scheme = mappingWildcard ∨ m.scheme = "oauth2"
  group : m.providerOrganization = mappingWildcard ∨ OneOfGroups m.providerOrganization p.group

theorem mem_splitGroups_iff {text group : String} : text ∈ splitGroups group ↔ OneOfGroups text group := by
  have hsplit : (splitGroups group).map String.toList = group.toList.splitOn ',' := by
    rw [splitGroups, List.map_map]
    exact (List.map_congr_left fun _ _ => String.toList_ofList).trans (List.map_id _)
  constructor
  · intro h
    refine ⟨splitGroups group, List.ne_nil_of_mem h, ?_, fun g hg => ?_, h⟩
    · rw [hsplit, List.intercalate_splitOn]
    · obtain ⟨part, hpart, rfl⟩ := List.mem_map.mp hg
      rw [String.toList_ofList]
      exact notMem_of_mem_splitOn hpart
  · rintro ⟨groups, hne, hjoin, hcomma, hmem⟩
    have hparts : group.toList.splitOn ',' = groups.map String.toList := by
      rw [← hjoin]
      refine List.splitOn_intercalate _ (fun l hl => ?_) (by simpa using hne)
      obtain ⟨g, hg, rfl⟩ := List.mem_map.mp hl
      exact hcomma g hg
    rw [splitGroups, hparts, List.map_map]
    exact List.mem_map.mpr ⟨text, hmem, String.ofList_toList⟩
where
  notMem_of_mem_splitOn : ∀ {l part : List Char}, part ∈ l.splitOn ',' → ',' ∉ part
    | [], part, h => by
      simp only [List.splitOn_nil, List.mem_singleton] at h
      rw [h]
      exact List.not_mem_nil
    | c :: l, part, h => by
      rw [List.splitOn_cons_eq_if_modifyHead] at h
      split at h
      · rcases List.mem_cons.mp h with rfl | h
        · exact List.not_mem_nil
        · exact notMem_of_mem_splitOn h
      · rename_i hc
        obtain ⟨hd, tl, htl⟩ := List.exists_cons_of_ne_nil (List.splitOn_ne_nil ',' l)
        rw [htl, List.modifyHead_cons] at h
        rcases List.mem_cons.mp h with rfl | h
        · have hhd : ',' ∉ hd := notMem_of_mem_splitOn (l := l) (by rw [htl]; exact List.mem_cons_self)
          rw [List.mem_cons, not_or]
          exact ⟨fun heq => hc (by rw [← heq]; rfl), hhd⟩
        · exact notMem_of_mem_splitOn (by rw [htl]; exact List.mem_cons_of_mem _ h)

theorem applyMapping_iff : applyMapping m p = true ↔ Matches m p := by
  unfold applyMapping
  constructor
  · intro h
    split_ifs at h with hprovider hscheme hgroup
    · exact ⟨by tauto, by tauto, .inl hgroup⟩
    · refine ⟨by tauto, by tauto, .inr (mem_splitGroups_iff.mp ?_)⟩
      simpa [matchGroup] using h
  · rintro ⟨hprovider, hscheme, hgroup⟩
    rw [if_neg (by tauto), if_neg (by tauto)]
    split_ifs with hany
    · rfl
    · simpa [matchGroup] using mem_splitGroups_iff.mpr (hgroup.resolve_left hany)

/-! ### The loop -/

/-- The roles that the mappings give: one for every stored organization that a
matching mapping leads to, with the organization's default role. -/
structure Mapped (db : Db) (p : Principal) (ms : List Mapping) (roles : List Role) : Prop where
  one : (roles.map (·.organization)).Nodup
  mem : ∀ r, r ∈ roles ↔ ∃ org, db.organizations.get r.organization = some org ∧ r.name = org.defaultRole ∧
    ∃ m ∈ ms, m.organization = r.organization ∧ Matches m p

/-- A mapping that adds nothing: it does not match, or its organization is gone. -/
theorem Mapped.skip (h : Mapped db p ms roles)
    (hskip : Matches m p → db.organizations.get m.organization = none) : Mapped db p (ms ++ [m]) roles := by
  refine ⟨h.one, fun r => (h.mem r).trans (exists_congr fun org => and_congr_right fun horg =>
    and_congr_right fun _ => ?_)⟩
  simp only [List.mem_append, List.mem_singleton]
  constructor
  · rintro ⟨m', hm', heq⟩
    exact ⟨m', .inl hm', heq⟩
  · rintro ⟨m', hm' | rfl, hid, hmatch⟩
    · exact ⟨m', hm', hid, hmatch⟩
    · rw [← hid, hskip hmatch] at horg
      cases horg

/-- A mapping to an organization that has its role already. -/
theorem Mapped.again (h : Mapped db p ms roles) (hrole : ∃ r ∈ roles, r.organization = m.organization) :
    Mapped db p (ms ++ [m]) roles := by
  obtain ⟨r₀, hr₀, hid₀⟩ := hrole
  obtain ⟨-, -, -, m₀, hm₀, hidm, hmatch⟩ := (h.mem r₀).mp hr₀
  refine ⟨h.one, fun r => (h.mem r).trans (exists_congr fun org => and_congr_right fun _ =>
    and_congr_right fun _ => ?_)⟩
  simp only [List.mem_append, List.mem_singleton]
  constructor
  · rintro ⟨m', hm', heq⟩
    exact ⟨m', .inl hm', heq⟩
  · rintro ⟨m', hm' | rfl, hid, _⟩
    · exact ⟨m', hm', hid, ‹_›⟩
    · exact ⟨m₀, hm₀, hidm.trans (hid₀.trans hid), hmatch⟩

/-- A mapping to an organization without a role. -/
theorem Mapped.new {org : Organization} (h : Mapped db p ms roles) (hmatch : Matches m p)
    (horg : db.organizations.get m.organization = some org)
    (hnew : ∀ r ∈ roles, r.organization ≠ org.id) :
    Mapped db p (ms ++ [m]) (roles ++ [⟨org.defaultRole, org.id⟩]) := by
  have hid : org.id = m.organization := (Bucket.get_some horg).2
  constructor
  · rw [List.map_append, List.nodup_append]
    refine ⟨h.one, by simp, fun a ha b hb heq => ?_⟩
    obtain ⟨r, hr, rfl⟩ := List.mem_map.mp ha
    obtain rfl : b = org.id := by simpa using hb
    exact hnew r hr heq
  · intro r
    simp only [List.mem_append, List.mem_singleton]
    constructor
    · rintro (hr | rfl)
      · obtain ⟨org', horg', hname, m', hm', hm⟩ := (h.mem r).mp hr
        exact ⟨org', horg', hname, m', .inl hm', hm⟩
      · exact ⟨org, by rw [hid]; exact horg, rfl, m, .inr rfl, hid.symm, hmatch⟩
    · rintro ⟨org', horg', hname, m', hm' | rfl, hidr, hm⟩
      · exact .inl ((h.mem r).mpr ⟨org', horg', hname, m', hm', hidr, hm⟩)
      · rw [← hidr, horg] at horg'
        obtain rfl := Option.some.inj horg'
        obtain ⟨name, organization⟩ := r
        obtain rfl : name = org.defaultRole := hname
        obtain rfl : m'.organization = organization := hidr
        exact .inr (by rw [hid])

/-- What is given for the mappings gone through stays as the others are. -/
theorem mapRoles_mapped (s : Service) (ctx : Context) : ∀ (ms' : List Mapping) {ms : List Mapping} {roles : List Role},
    Mapped db p ms roles → ∃ rs, (mapRoles s (serverContext ctx) p roles ms').run db = (.ok rs, db) ∧
      Mapped db p (ms ++ ms') rs
  | [], ms, roles, h => ⟨roles, rfl, by rwa [List.append_nil]⟩
  | m :: ms', ms, roles, h => by
    have hrest : ∀ {roles'}, Mapped db p (ms ++ [m]) roles' →
        ∃ rs, (mapRoles s (serverContext ctx) p roles' ms').run db = (.ok rs, db) ∧ Mapped db p (ms ++ m :: ms') rs := by
      intro roles' h'
      obtain ⟨rs, hrun, hrs⟩ := mapRoles_mapped s ctx ms' h'
      exact ⟨rs, hrun, by simpa using hrs⟩
    unfold mapRoles
    by_cases happly : applyMapping m p = true
    · rw [if_pos happly]
      simp only [Tx.run_bind, Tx.run_attempt, Store.organizations_serverContext, Bolt.organizationsStore,
        Bolt.OrganizationsStore.get, Bolt.OrganizationsStore.run_getID]
      cases horg : db.organizations.get m.organization with
      | none => exact hrest (h.skip fun _ => horg)
      | some org =>
        dsimp only
        by_cases hdup : (roles.any fun role => role.organization = org.id) = true
        · rw [if_pos hdup]
          refine hrest (h.again ?_)
          rw [← (Bucket.get_some horg).2]
          simpa using hdup
        · rw [if_neg hdup]
          refine hrest (h.new (applyMapping_iff.mp happly) horg fun r hr heq => hdup ?_)
          exact List.any_eq_true.mpr ⟨r, hr, by simpa using heq⟩
    · rw [if_neg happly]
      exact hrest (h.skip fun hmatch => absurd (applyMapping_iff.mpr hmatch) happly)

theorem mapped_nil (db : Db) (p : Principal) : Mapped db p [] [] := ⟨List.nodup_nil, by simp⟩

/-- The roles are those of the mappings as a set. -/
theorem Mapped.congr (h : Mapped db p ms roles) (h' : Mapped db p ms' roles') (hset : ∀ m, m ∈ ms ↔ m ∈ ms') (r : Role) :
    r ∈ roles ↔ r ∈ roles' := by
  rw [h.mem, h'.mem]
  simp only [hset]

/-- Whatever the mappings and the organizations are, the loop ends with one role
for each stored organization that a matching mapping leads to and with no other,
and other mappings that are the same as a set give the same roles; the mappings
are the stored ones. -/
theorem mapped_roles (s : Service) (ctx : Context) (p : Principal) (db : Db) (ms : List Mapping) :
    (∃ rs, (mapRoles s (serverContext ctx) p [] ms).run db = (.ok rs, db) ∧ Mapped db p ms rs ∧
      ∀ ms' rs', (∀ m, m ∈ ms' ↔ m ∈ ms) → (mapRoles s (serverContext ctx) p [] ms').run db = (.ok rs', db) →
        ∀ r, r ∈ rs' ↔ r ∈ rs) ∧
    (mapPrincipalToRoles s (serverContext ctx) p).run db =
      (mapRoles s (serverContext ctx) p [] db.mappings.recs).run db := by
  obtain ⟨rs, hrun, hrs⟩ := mapRoles_mapped s ctx ms (mapped_nil db p)
  refine ⟨⟨rs, hrun, hrs, fun ms' rs' hset hrun' r => ?_⟩, rfl⟩
  obtain ⟨rs'', hrun'', hrs'⟩ := mapRoles_mapped s ctx ms' (mapped_nil db p)
  rw [hrun'] at hrun''
  obtain rfl := Except.ok.inj (Prod.mk.inj hrun'').1
  exact hrs'.congr hrs hset r

/-- In a new database the mapping of everybody gives the role in the default
organization; given twice, it gives the role once. -/
theorem everybody_mapped_once :
    Mapped Db.opened ⟨"bob", "github", "", "a,b"⟩ [⟨"default", "default", "*", "*", "*"⟩] [⟨"member", "default"⟩] ∧
      ∀ r, r ∈ ([⟨"member", "default"⟩] : List Role) ↔ r ∈ ([⟨"member", "default"⟩] : List Role) := by
  obtain ⟨⟨rs, hrun, hmapped, hset⟩, -⟩ := mapped_roles ⟨true, ⟨""⟩, fun _ => ""⟩ {} ⟨"bob", "github", "", "a,b"⟩ Db.opened
    [⟨"default", "default", "*", "*", "*"⟩]
  have honce : (mapRoles ⟨true, ⟨""⟩, fun _ => ""⟩ (serverContext {}) ⟨"bob", "github", "", "a,b"⟩ []
      [⟨"default", "default", "*", "*", "*"⟩]).run Db.opened = (.ok [⟨"member", "default"⟩], Db.opened) := by rfl
  obtain rfl := Except.ok.inj (Prod.mk.inj (hrun.symm.trans honce)).1
  refine ⟨hmapped, hset [⟨"default", "default", "*", "*", "*"⟩, ⟨"default", "default", "*", "*", "*"⟩] _ (by simp) ?_⟩
  rfl

end Server
end Chronograf
