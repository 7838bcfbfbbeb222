/-
# The organizations of a GitHub user, page by page

`getOrganizations` asks for pages of ten organizations. The number of the page
to ask for next is written to an option that the next turn of the loop makes
anew, so every turn asks for the first page, and a user whose organizations fill
more than one page keeps it turning for ever. Membership and the group depend on
the whole list.

Key definitions: `Github.getOrganizationsFrom`, `Github.Paginated`,
`Github.ReadsAll`, `Github.GrantsMembers`, `Github.GroupsAll`.
Key theorem: `Github.organizations_read_iff`.
-/
import Chronograf.Oauth2.Restrictions

namespace Chronograf
namespace Oauth2
namespace Github

/-- `github.ListOptions`; the page 0 is the first one. -/
structure ListOptions where
  page : ℕ := 0
  perPage : ℕ := 0
  deriving DecidableEq

/-- The loop of `getOrganizations`, `n` turns of it, over a service that
answers every request in its own way. -/
def getOrganizationsFrom (list : ListOptions → Answer OrgPage) :
    ℕ → List (Option String) → Option (Answer (List (Option String)))
  | 0, _ => none
  | n + 1, allOrgs =>
    let opt : ListOptions := { perPage := 10 }
    match list opt with
    | .error err => some (.error err)
    | .ok resp =>
      let allOrgs := allOrgs ++ resp.logins
      if resp.nextPage = 0 then some (.ok allOrgs)
      else
        -- the option whose page is set here is not the one of the next turn
        let _opt := { opt with page := resp.nextPage }
        getOrganizationsFrom list n allOrgs

/-- What GitHub replies while the loop turns `n` times. -/
def replies (list : ListOptions → Answer OrgPage) (emails : Answer (List (Option UserEmail))) (n : ℕ) : GithubReplies :=
  { orgs := List.replicate n (list { perPage := 10 })
    emails := emails
    groupOrgs := List.replicate n (list { perPage := 10 }) }

/-- The pages from the one numbered `p` on, each naming the next. -/
def Paginated (list : ListOptions → Answer OrgPage) : ℕ → List (List (Option String)) → Prop
  | _, [] => False
  | p, [logins] => list { page := p, perPage := 10 } = .ok ⟨logins, 0⟩
  | p, logins :: rest => ∃ next ≠ 0, list { page := p, perPage := 10 } = .ok ⟨logins, next⟩ ∧ Paginated list next rest

/-! ### What is to be read -/

variable (g : Github) (list : ListOptions → Answer OrgPage) (pages : List (List (Option String)))
  (emails : Answer (List (Option UserEmail)))

/-- The loop ends with the organizations of all the pages. -/
def ReadsAll : Prop := ∃ n, getOrganizationsFrom list n [] = some (.ok pages.flatten)

/-- A verified primary address, as far as the service tells them. -/
def HasEmail : Prop := ∃ es e, emails = .ok es ∧ primaryEmail es = .ok e ∧ e ≠ ""

/-- `PrincipalID` ends, with an address exactly for the members who have a
verified one. Without organizations to be in, everybody is a member. -/
def GrantsMembers : Prop :=
  ∃ n id, g.principalID (replies list emails n) = some (.ok id) ∧
    (id ≠ "" ↔ (g.orgs = [] ∨ ∃ org ∈ g.orgs, some org ∈ pages.flatten) ∧ HasEmail emails)

/-- `Group` ends with the organizations of all the pages that have a name. -/
def GroupsAll : Prop :=
  ∃ n, group (replies list emails n) = some (.ok (",".intercalate (pages.flatten.filterMap id)))

/-! ### The loop -/

variable {g list pages emails}

/-- The loop reads what the first page's replies, one after the other, give. -/
theorem getOrganizationsFrom_eq (n : ℕ) (allOrgs : List (Option String)) :
    getOrganizationsFrom list n allOrgs =
      (getOrganizations (List.replicate n (list { perPage := 10 }))).map fun orgs => orgs.map (allOrgs ++ ·) := by
  induction n generalizing allOrgs with
  | zero => rfl
  | succ n ih =>
    rw [List.replicate_succ, getOrganizationsFrom, getOrganizations.eq_def]
    simp only [ih]
    generalize List.replicate n (list { perPage := 10 }) = rest
    rcases list { perPage := 10 } with err | resp
    · rfl
    · by_cases hlast : resp.nextPage = 0
      · simp only [hlast, if_true]
        rfl
      · simp only [hlast, if_false]
        cases getOrganizations rest with
        | none => rfl
        | some orgs => cases orgs <;> simp [Except.map]

theorem getOrganizationsFrom_nil (n : ℕ) :
    getOrganizationsFrom list n [] = getOrganizations (List.replicate n (list { perPage := 10 })) := by
  rw [getOrganizationsFrom_eq]
  cases getOrganizations _ with
  | none => rfl
  | some orgs => cases orgs <;> rfl

/-- A last page ends the loop in its first turn. -/
theorem getOrganizations_last {logins : List (Option String)} (h : list { perPage := 10 } = .ok ⟨logins, 0⟩) (n : ℕ) :
    getOrganizations (List.replicate (n + 1) (list { perPage := 10 })) = some (.ok logins) := by
  rw [List.replicate_succ, h, getOrganizations]
  rfl

/-- A first page that names another one is read for ever. -/
theorem getOrganizations_more {resp : OrgPage} (h : list { perPage := 10 } = .ok resp) (hnext : resp.nextPage ≠ 0) (n : ℕ) :
    getOrganizations (List.replicate n (list { perPage := 10 })) = none := by
  induction n with
  | zero => rfl
  | succ n ih =>
    rw [List.replicate_succ]
    nth_rewrite 1 [h]
    rw [getOrganizations, if_neg hnext, ih]
    rfl

theorem Paginated.first (h : Paginated list 0 pages) : ∃ resp, list { perPage := 10 } = .ok resp ∧
    (resp.nextPage = 0 ↔ pages.length = 1) ∧ (pages.length = 1 → resp.logins = pages.flatten) := by
  match pages, h with
  | [logins], h => exact ⟨_, h, by simp, by simp⟩
  | logins :: next :: rest, ⟨p, hp, h, _⟩ => exact ⟨_, h, by simp [hp], by simp⟩

/-! ### The address -/

/-- There is an address exactly when one that is verified and primary has been told. -/
theorem primaryEmail_ok_iff {es : List (Option UserEmail)} :
    (∃ e, primaryEmail es = .ok e) ↔ ∃ e, some ⟨some e, some true, some true⟩ ∈ es := by
  fun_induction primaryEmail es with
  | case1 => simp
  | case2 email es => exact ⟨fun _ => ⟨email, List.mem_cons_self⟩, fun _ => ⟨email, rfl⟩⟩
  | case3 m es hm ih =>
    rw [ih]
    refine exists_congr fun e => ?_
    rw [List.mem_cons]
    constructor
    · exact .inr
    · rintro (he | he)
      · exact absurd he.symm (hm e)
      · exact he

theorem emailOrEmpty_ne_iff (r : GithubReplies) : emailOrEmpty r ≠ "" ↔ HasEmail r.emails := by
  unfold emailOrEmpty HasEmail
  rcases r.emails with err | es
  · simp [bind, Except.bind]
  · rcases he : primaryEmail es with err | e
    · simp [bind, Except.bind, he]
    · simp [bind, Except.bind, he]

/-! ### When everything is read -/

theorem readsAll_iff (h : Paginated list 0 pages) : ReadsAll list pages ↔ pages.length = 1 := by
  obtain ⟨resp, hresp, hnext, hall⟩ := h.first
  unfold ReadsAll
  simp only [getOrganizationsFrom_nil]
  constructor
  · rintro ⟨n, hn⟩
    by_contra hone
    rw [getOrganizations_more hresp (fun hzero => hone (hnext.mp hzero))] at hn
    cases hn
  · intro hone
    refine ⟨1, ?_⟩
    obtain ⟨logins, next⟩ := resp
    obtain rfl : next = 0 := hnext.mpr hone
    rw [getOrganizations_last hresp]
    exact congrArg _ (congrArg _ (hall hone))

theorem groupsAll_iff (h : Paginated list 0 pages) : GroupsAll list pages emails ↔ pages.length = 1 := by
  constructor
  · rintro ⟨n, hn⟩
    obtain ⟨resp, hresp, hnext, -⟩ := h.first
    by_contra hone
    rw [group, replies, getOrganizations_more hresp fun hzero => hone (hnext.mp hzero)] at hn
    cases hn
  · intro hone
    obtain ⟨n, hn⟩ := (readsAll_iff h).mpr hone
    rw [getOrganizationsFrom_nil] at hn
    refine ⟨n, ?_⟩
    rw [group, replies, hn]
    rfl

theorem grantsMembers_iff (h : Paginated list 0 pages) :
    GrantsMembers g list pages emails ↔ g.orgs = [] ∨ pages.length = 1 := by
  unfold GrantsMembers principalID
  by_cases hnone : g.orgs = []
  · have hemail := emailOrEmpty_ne_iff (replies list emails 0)
    simp only [hnone, List.length_nil, lt_irrefl, if_false, true_or, true_and, iff_true]
    exact ⟨0, _, rfl, hemail⟩
  have hpos : g.orgs.length > 0 := List.length_pos_iff.mpr hnone
  simp only [hnone, hpos, if_true, false_or]
  constructor
  · rintro ⟨n, id, hid, -⟩
    obtain ⟨resp, hresp, hnext, -⟩ := h.first
    by_contra hone
    rw [replies, getOrganizations_more hresp fun hzero => hone (hnext.mp hzero)] at hid
    cases hid
  · intro hone
    obtain ⟨n, hn⟩ := (readsAll_iff h).mpr hone
    rw [getOrganizationsFrom_nil] at hn
    have hread : getOrganizations (replies list emails n).orgs = some (.ok pages.flatten) := hn
    have hemail : emailOrEmpty (replies list emails n) ≠ "" ↔ HasEmail emails := emailOrEmpty_ne_iff _
    refine ⟨n, ?_⟩
    rw [hread]
    by_cases hmember : isMember g.orgs pages.flatten = true
    · have hmem := Configured.isMember_iff.mp hmember
      simp only [hmember, Bool.true_eq_false, if_false, Option.some.injEq, Except.ok.injEq, exists_eq_left', hmem, true_and]
      exact hemail
    · have hmem : ¬ ∃ org ∈ g.orgs, some org ∈ pages.flatten := fun hm => hmember (Configured.isMember_iff.mpr hm)
      simp only [hmember, if_true, Option.some.injEq, Except.ok.injEq, exists_eq_left', hmem, false_and]
      simp

/-- The organizations are read completely exactly when they are on one page. -/
theorem organizations_read_iff (g : Github) (list : ListOptions → Answer OrgPage) (pages : List (List (Option String)))
    (emails : Answer (List (Option UserEmail))) (h : Paginated list 0 pages) :
    (ReadsAll list pages ↔ pages.length = 1) ∧
      (GrantsMembers g list pages emails ↔ g.orgs = [] ∨ pages.length = 1) ∧
      (GroupsAll list pages emails ↔ pages.length = 1) :=
  ⟨readsAll_iff h, grantsMembers_iff h, groupsAll_iff h⟩

/-- A user with one page of organizations. -/
theorem one_page_read :
    ReadsAll (fun _ => .ok ⟨[some "a"], 0⟩) [[some "a"]] ∧
      GrantsMembers ⟨["a"]⟩ (fun _ => .ok ⟨[some "a"], 0⟩) [[some "a"]] (.error "") ∧
      GroupsAll (fun _ => .ok ⟨[some "a"], 0⟩) [[some "a"]] (.error "") := by
  obtain ⟨hread, hgrant, hgroup⟩ :=
    organizations_read_iff ⟨["a"]⟩ (fun _ => .ok ⟨[some "a"], 0⟩) [[some "a"]] (.error "") rfl
  exact ⟨hread.mpr rfl, hgrant.mpr (.inr rfl), hgroup.mpr rfl⟩

/-- The organizations `a` on the first page and `b` on the second one. -/
def twoPages (opt : ListOptions) : Answer OrgPage :=
  if opt.page = 2 then .ok ⟨[some "b"], 0⟩ else .ok ⟨[some "a"], 2⟩

/-- With two pages no number of turns is enough. -/
theorem two_pages_never_end : Paginated twoPages 0 [[some "a"], [some "b"]] ∧
    (∀ n, getOrganizationsFrom twoPages n [] = none) ∧ ¬ ReadsAll twoPages [[some "a"], [some "b"]] := by
  have hpages : Paginated twoPages 0 [[some "a"], [some "b"]] := ⟨2, by decide, rfl, rfl⟩
  have hmore : ∀ n, getOrganizationsFrom twoPages n [] = none := by
    intro n
    rw [getOrganizationsFrom_nil]
    exact getOrganizations_more (show twoPages _ = _ from rfl) (by decide) n
  refine ⟨hpages, hmore, ?_⟩
  rintro ⟨n, hn⟩
  rw [hmore] at hn
  cases hn

end Github
end Oauth2
end Chronograf
