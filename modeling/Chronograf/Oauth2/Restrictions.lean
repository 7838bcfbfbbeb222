/-
# Who gets a session

Every provider can be restricted: to e-mail domains, or to organizations. The
callback begins a session for nobody else exactly when, as the providers answer,
the lookup that applies the restriction is the one that is made, and it ends in
an error or in a user that has an e-mail address.

Key definitions: `Configured`, `Configured.Allows`, `Configured.Guarded`,
`Configured.ReadsAllowed`, `Configured.LooksUpAllowed`.
Key theorem: `Configured.callback_guarded_iff`.
-/
import Chronograf.Oauth2.Callback

namespace Chronograf
namespace Oauth2

/-! ### Domains -/

/-- An address ends in a domain when it is somebody's there. -/
theorem ofDomain_iff {domains : List String} {email : String} :
    ofDomain domains email = true ↔ ∃ domain ∈ domains, ∃ user, email = user ++ "@" ++ domain := by
  unfold ofDomain
  simp only [List.any_eq_true, decide_eq_true_eq]
  refine exists_congr fun domain => and_congr_right fun _ => ?_
  constructor
  · rintro ⟨user, huser⟩
    refine ⟨String.ofList user, ?_⟩
    apply String.toList_injective
    rw [String.toList_append, String.toList_append, String.toList_ofList, ← huser]
    simp
  · rintro ⟨user, rfl⟩
    refine ⟨user.toList, ?_⟩
    simp [String.toList_append]

/-- Nobody without an address is of a domain. -/
theorem ofDomain_empty (domains : List String) : ofDomain domains "" = false := by
  rw [Bool.eq_false_iff]
  intro h
  obtain ⟨domain, -, user, huser⟩ := ofDomain_iff.mp h
  have hlen := congrArg (fun s => s.toList.length) huser
  simp [String.toList_append] at hlen

/-! ### Providers as they are configured -/

/-- A provider as it is configured, and the replies to its lookups. -/
inductive Configured
  | generic (g : Generic) (r : GenericReplies)
  | auth0 (a : Auth0) (r : AccountReplies)
  | github (g : Github) (r : GithubReplies)
  | google (g : Google) (r : AccountReplies)
  | heroku (h : Heroku) (r : AccountReplies)

namespace Configured

def provider : Configured → Provider
  | generic g r => g.provider r
  | auth0 a r => a.provider r
  | github g r => g.provider r
  | google g r => g.provider r
  | heroku h r => h.provider r

/-- The account is in one of the organizations, if there are any. -/
def Member (organizations : List String) (account : Answer Account) : Prop :=
  organizations = [] ∨ ∃ act, account = .ok act ∧ act.organization ∈ organizations

/-- The user is one the provider is restricted to. -/
def Allows : Configured → String → Prop
  | generic g _, email => g.domains = [] ∨ ∃ domain ∈ g.domains, ∃ user, email = user ++ "@" ++ domain
  | auth0 a r, _ => Member a.organizations r.account
  | github g r, _ => g.orgs = [] ∨
      ∃ logins, Github.getOrganizations r.orgs = some (.ok logins) ∧ ∃ org ∈ g.orgs, some org ∈ logins
  | google g r, _ => Member g.domains r.account
  | heroku h r, _ => Member h.organizations r.account

/-- Every session that the callback begins is for a user that has an e-mail
address and is allowed. -/
def Guarded (s : Configured) (j : AuthMux) (getClaims : String → Answer Object) (grant : Grant)
    (validated now : Time) : Prop :=
  ∀ redirect cookie, j.callback s.provider getClaims grant validated now = some redirect →
    redirect.cookie = some cookie → cookie.value.claims.subject ≠ "" ∧ s.Allows cookie.value.claims.subject

/-- The e-mail address that an id_token claims. -/
def Claimed (g : Generic) (getClaims : String → Answer Object) (idToken : Option Value) (email : String) : Prop :=
  ∃ tokenString claims, idToken = some (.string tokenString) ∧ getClaims tokenString = .ok claims ∧
    claims g.apiKey = some (.string email)

/-- Whoever an id_token claims to be is allowed; the providers that do not read
id_tokens make the empty user of it. -/
def ReadsAllowed (getClaims : String → Answer Object) (idToken : Option Value) : Configured → Prop
  | generic g _ => ∀ email, Claimed g getClaims idToken email →
      email ≠ "" ∧ (g.domains = [] ∨ ofDomain g.domains email = true)
  | auth0 a r => ∀ email, Claimed a.toGeneric getClaims idToken email → email ≠ "" ∧ Member a.organizations r.account
  | _ => False

/-- An account that is in an organization has an e-mail address. -/
def AccountAllowed (organizations : List String) (account : Answer Account) : Prop :=
  ∀ act, account = .ok act → organizations = [] ∨ act.organization ∈ organizations → act.email ≠ ""

/-- Whoever is looked up has an e-mail address; at GitHub, nobody is looked up
that is not a member. -/
def LooksUpAllowed : Configured → Prop
  | generic g r => g.domains ≠ [] ∨ g.email r.userInfo r.emails ≠ .ok ""
  | auth0 a r => AccountAllowed a.organizations r.account
  | github g r =>
    if g.orgs = [] then Github.emailOrEmpty r ≠ ""
    else ∀ logins, Github.getOrganizations r.orgs = some (.ok logins) →
      Github.isMember g.orgs logins = true ∧ Github.emailOrEmpty r ≠ ""
  | google g r => AccountAllowed g.domains r.account
  | heroku h r => AccountAllowed h.organizations r.account

/-! ### Lookups -/

section Accounts

variable {organizations : List String} {r : AccountReplies} {id : String}

theorem auth0_principalID_iff {a : Auth0} : a.principalID r = .ok id ↔
    ∃ act, r.account = .ok act ∧ (a.organizations = [] ∨ act.organization ∈ a.organizations) ∧ act.email = id := by
  unfold Auth0.principalID
  cases r.account with
  | error err => simp [bind, Except.bind]
  | ok act =>
    by_cases hnone : a.organizations = []
    · simp [bind, Except.bind, hnone]
    · by_cases hmem : act.organization ∈ a.organizations <;>
        simp [bind, Except.bind, hmem, List.length_pos_iff, hnone]

theorem google_principalID_iff {g : Google} : g.principalID r = .ok id ↔
    ∃ act, r.account = .ok act ∧ (g.domains = [] ∨ act.organization ∈ g.domains) ∧ act.email = id := by
  unfold Google.principalID
  cases r.account with
  | error err => simp [bind, Except.bind]
  | ok act =>
    by_cases hnone : g.domains = []
    · simp [bind, Except.bind, hnone]
    · by_cases hmem : act.organization ∈ g.domains <;> simp [bind, Except.bind, hmem, hnone]

theorem heroku_principalID_iff {h : Heroku} : h.principalID r = .ok id ↔
    ∃ act, r.account = .ok act ∧ (h.organizations = [] ∨ act.organization ∈ h.organizations) ∧ act.email = id := by
  unfold Heroku.principalID
  cases r.account with
  | error err => simp [bind, Except.bind]
  | ok act =>
    by_cases hnone : h.organizations = []
    · simp [bind, Except.bind, hnone]
    · by_cases hmem : act.organization ∈ h.organizations <;>
        simp [bind, Except.bind, hmem, List.length_pos_iff, hnone]

/-- A lookup that gives the e-mail address of an account that is allowed. -/
theorem account_allowed_iff {principalID : Answer String}
    (h : ∀ id, principalID = .ok id ↔
      ∃ act, r.account = .ok act ∧ (organizations = [] ∨ act.organization ∈ organizations) ∧ act.email = id) :
    (∀ id, some principalID = some (.ok id) → id ≠ "" ∧ Member organizations r.account) ↔
      AccountAllowed organizations r.account := by
  simp only [Option.some.injEq, h]
  constructor
  · intro hall act hact horg
    exact (hall act.email ⟨act, hact, horg, rfl⟩).1
  · rintro hall id ⟨act, hact, horg, rfl⟩
    exact ⟨hall act hact horg, horg.imp_right fun hmem => ⟨act, hact, hmem⟩⟩

end Accounts

theorem generic_looksUp_iff (g : Generic) (r : GenericReplies) :
    (∀ id, some (g.principalID r) = some (.ok id) → id ≠ "" ∧ (generic g r).Allows id) ↔
      (generic g r).LooksUpAllowed := by
  have hid : ∀ id, g.principalID r = .ok id ↔
      g.email r.userInfo r.emails = .ok id ∧ (g.domains = [] ∨ ofDomain g.domains id = true) := by
    intro id
    unfold Generic.principalID
    cases g.email r.userInfo r.emails with
    | error err => simp [bind, Except.bind]
    | ok email =>
      by_cases hnone : g.domains = []
      · simp [bind, Except.bind, hnone]
      · cases hof : ofDomain g.domains email with
        | true =>
          simp only [bind, Except.bind, hof, Bool.true_eq_false, and_false, if_false, Except.ok.injEq]
          exact ⟨fun h => ⟨h, .inr (h ▸ hof)⟩, And.left⟩
        | false =>
          simp only [bind, Except.bind, List.length_pos_iff, ne_eq, hnone, not_false_eq_true, hof, and_self, if_true,
            Except.ok.injEq, false_or, reduceCtorEq, false_iff, not_and]
          rintro rfl
          simp [hof]
  simp only [Option.some.injEq, hid, Allows, LooksUpAllowed]
  constructor
  · intro hall
    by_cases hnone : g.domains = []
    · exact .inr fun hempty => (hall "" ⟨hempty, .inl hnone⟩).1 rfl
    · exact .inl hnone
  · rintro hall id ⟨hemail, hdomain⟩
    refine ⟨?_, hdomain.imp_right ofDomain_iff.mp⟩
    rintro rfl
    rcases hall with hsome | hne
    · rcases hdomain with hnone | hof
      · exact hsome hnone
      · rw [ofDomain_empty] at hof
        cases hof
    · exact hne hemail

theorem isMember_iff {orgs : List String} {logins : List (Option String)} :
    Github.isMember orgs logins = true ↔ ∃ org ∈ orgs, some org ∈ logins := by
  simp [Github.isMember]

theorem github_looksUp_iff (g : Github) (r : GithubReplies) :
    (∀ id, g.principalID r = some (.ok id) → id ≠ "" ∧ (github g r).Allows id) ↔ (github g r).LooksUpAllowed := by
  unfold Github.principalID Allows LooksUpAllowed
  by_cases hnone : g.orgs = []
  · simp [hnone]
  · simp only [List.length_pos_iff, ne_eq, hnone, not_false_eq_true, if_true, if_false, false_or]
    cases hl : Github.getOrganizations r.orgs with
    | none => simp
    | some listing =>
      cases listing with
      | error err => simp
      | ok logins =>
        have hmember : Github.isMember g.orgs logins = true ↔ ∃ org ∈ g.orgs, some org ∈ logins := isMember_iff
        cases hm : Github.isMember g.orgs logins with
        | false => simp [hm]
        | true => simp [← hmember, hm]

/-- A lookup that the restriction is applied in. -/
theorem looksUp_iff (s : Configured) :
    (∀ id, s.provider.principalID = some (.ok id) → id ≠ "" ∧ s.Allows id) ↔ s.LooksUpAllowed := by
  cases s with
  | generic g r => exact generic_looksUp_iff g r
  | auth0 a r => exact account_allowed_iff fun _ => auth0_principalID_iff
  | github g r => exact github_looksUp_iff g r
  | google g r => exact account_allowed_iff fun _ => google_principalID_iff
  | heroku h r => exact account_allowed_iff fun _ => heroku_principalID_iff

/-! ### id_tokens -/

section Claimed

variable {g : Generic} {getClaims : String → Answer Object} {idToken : Option Value}

/-- The user and the group that a generic provider reads from an id_token. -/
def readClaims (g : Generic) (getClaims : String → Answer Object) (tokenString : String) : Answer (String × String) := do
  let claims ← getClaims tokenString
  let id ← g.principalIDFromClaims claims
  let group ← g.groupFromClaims claims
  return (id, group)

/-- Whoever is claimed has a group. -/
theorem readClaims_iff {id : String} :
    (∃ group, ∃ tokenString, idToken = some (.string tokenString) ∧
        readClaims g getClaims tokenString = .ok (id, group)) ↔ Claimed g getClaims idToken id := by
  constructor
  · rintro ⟨group, tokenString, htoken, hread⟩
    unfold readClaims at hread
    cases hclaims : getClaims tokenString with
    | error err => simp [hclaims, bind, Except.bind] at hread
    | ok claims =>
      refine ⟨tokenString, claims, htoken, hclaims, ?_⟩
      simp only [hclaims, bind, Except.bind, Generic.principalIDFromClaims] at hread
      cases hkey : claims g.apiKey with
      | none => simp [hkey] at hread
      | some value =>
        cases value with
        | other => simp [hkey] at hread
        | string email =>
          simp only [hkey] at hread
          split at hread
          · cases hread
          · cases hread
            rfl
  · rintro ⟨tokenString, claims, htoken, hclaims, hkey⟩
    have hgroup : ∃ group, g.groupFromClaims claims = .ok group := by
      unfold Generic.groupFromClaims
      rw [hkey]
      dsimp only
      split
      · exact ⟨_, rfl⟩
      · exact ⟨_, rfl⟩
    obtain ⟨group, hgroup⟩ := hgroup
    refine ⟨group, tokenString, htoken, ?_⟩
    simp [readClaims, hclaims, bind, Except.bind, Generic.principalIDFromClaims, hkey, hgroup, pure, Except.pure]

end Claimed

variable {j : AuthMux} {getClaims : String → Answer Object} {idToken : Option Value}

theorem identify_of_not_inspects {provider : Provider} {id group : String} (hi : j.inspects idToken = false) :
    j.identify provider getClaims idToken = some (.ok (id, group)) ↔
      provider.principalID = some (.ok id) ∧ provider.group = some (.ok group) := by
  unfold AuthMux.identify
  rw [if_neg (by simp [hi])]
  cases provider.principalID with
  | none => simp
  | some answer =>
    cases answer with
    | error err => simp
    | ok id' =>
      cases provider.group with
      | none => simp
      | some answer => cases answer <;> simp [Except.map]

theorem identify_of_inspects {provider : Provider} {g : Generic} {id group : String} (hi : j.inspects idToken = true)
    (hp : provider.fromClaims = some (g.principalIDFromClaims, g.groupFromClaims)) :
    j.identify provider getClaims idToken = some (.ok (id, group)) ↔
      ∃ tokenString, idToken = some (.string tokenString) ∧ readClaims g getClaims tokenString = .ok (id, group) := by
  unfold AuthMux.identify
  rw [if_pos hi, hp]
  dsimp only
  split
  · simp [readClaims]
  · rename_i hstring
    refine iff_of_false (by simp) ?_
    rintro ⟨tokenString, rfl, -⟩
    exact hstring tokenString rfl

/-- An id_token that is inspected. -/
theorem reads_iff (s : Configured) (hi : j.inspects idToken = true) :
    (∀ id group, j.identify s.provider getClaims idToken = some (.ok (id, group)) → id ≠ "" ∧ s.Allows id) ↔
      s.ReadsAllowed getClaims idToken := by
  have hempty : ∀ p : Provider, p.fromClaims = none →
      j.identify p getClaims idToken = some (.ok ("", "")) := by
    intro p hp
    unfold AuthMux.identify
    rw [if_pos hi, hp]
  have hread : ∀ (p : Provider) (g : Generic), p.fromClaims = some (g.principalIDFromClaims, g.groupFromClaims) →
      ∀ id, (∃ group, j.identify p getClaims idToken = some (.ok (id, group))) ↔ Claimed g getClaims idToken id := by
    intro p g hp id
    rw [← readClaims_iff]
    exact exists_congr fun group => identify_of_inspects hi hp
  cases s with
  | generic g r =>
    simp only [ReadsAllowed, ← hread (g.provider r) g rfl, ofDomain_iff]
    exact ⟨fun h email ⟨group, hid⟩ => h email group hid, fun h id group hid => h id ⟨group, hid⟩⟩
  | auth0 a r =>
    simp only [ReadsAllowed, ← hread (a.provider r) a.toGeneric rfl]
    exact ⟨fun h email ⟨group, hid⟩ => h email group hid, fun h id group hid => h id ⟨group, hid⟩⟩
  | github g r => exact iff_of_false (fun h => (h "" "" (hempty _ rfl)).1 rfl) id
  | google g r => exact iff_of_false (fun h => (h "" "" (hempty _ rfl)).1 rfl) id
  | heroku h r => exact iff_of_false (fun h => (h "" "" (hempty _ rfl)).1 rfl) id

/-! ### The sessions that are begun -/

/-- The sessions are guarded if and only if, once the callback is granted, whoever
an id_token claims to be is allowed, or, when there is none to be inspected,
whoever is looked up and whose group is found. -/
theorem callback_guarded_iff (j : AuthMux) (s : Configured) (getClaims : String → Answer Object) (grant : Grant)
    (validated now : Time) :
    s.Guarded j getClaims grant validated now ↔
      ∀ idToken, j.Granted grant validated idToken →
        if j.inspects idToken then s.ReadsAllowed getClaims idToken
        else (∃ group, s.provider.group = some (.ok group)) → s.LooksUpAllowed := by
  have hsession : s.Guarded j getClaims grant validated now ↔
      ∀ idToken, j.Granted grant validated idToken → ∀ id group,
        j.identify s.provider getClaims idToken = some (.ok (id, group)) → id ≠ "" ∧ s.Allows id := by
    constructor
    · intro h idToken hgrant id group hid
      obtain ⟨redirect, hcall, hcookie⟩ := AuthMux.callback_cookie_iff.mpr ⟨idToken, id, group, hgrant, hid, rfl⟩
      exact h redirect _ hcall hcookie
    · intro h redirect cookie hcall hcookie
      obtain ⟨idToken, id, group, hgrant, hid, rfl⟩ := AuthMux.callback_cookie_iff.mp ⟨redirect, hcall, hcookie⟩
      exact h idToken hgrant id group hid
  rw [hsession]
  refine forall_congr' fun idToken => imp_congr_right fun _ => ?_
  cases hi : j.inspects idToken with
  | true =>
    rw [if_pos rfl]
    exact reads_iff s hi
  | false =>
    rw [if_neg (by simp), ← looksUp_iff]
    simp only [identify_of_not_inspects hi]
    constructor
    · rintro h ⟨group, hgroup⟩ id hid
      exact h id group ⟨hid, hgroup⟩
    · rintro h id group ⟨hid, hgroup⟩
      exact h ⟨group, hgroup⟩ id hid

/-! ### Users that get in -/

def sampleMux : AuthMux := ⟨newCookieJWT "secret" (600 * second), ⟨"secret"⟩, "/", "/login", true⟩

def sampleNow : Time := 1600000000 * second

/-- The state of a login that was begun just now. -/
def sampleState : Token := sampleMux.tokens.create ⟨⟨"state", "", "", ""⟩, sampleNow + tenMinutes, sampleNow⟩

/-- A provider for one domain, whose user information is not asked for. -/
def sampleDomain : Configured :=
  .generic ⟨"", ["influxdata.com"], "email"⟩ ⟨.error "", .error "", .error "", .error ""⟩

/-- A GitHub user of another organization. -/
def sampleOutsider : Configured :=
  .github ⟨["influxdata"]⟩ ⟨[.ok ⟨[some "hill-valley"], 0⟩],
    .ok [some ⟨some "biff@tannen.com", some true, some true⟩], [.ok ⟨[some "hill-valley"], 0⟩]⟩

/-- The claims of an id_token for somebody of another domain. -/
def sampleClaims : String → Answer Object := fun _ => .ok fun key =>
  if key = "email" then some (.string "biff@tannen.com") else none

/-- Somebody of another domain gets a session by an id_token; and somebody who is
not in the organization gets one as the empty user. -/
theorem outsiders_get_sessions :
    ¬ sampleDomain.Guarded sampleMux sampleClaims ⟨some sampleState, .ok (some (.string "id_token"))⟩ sampleNow
        sampleNow ∧
      ¬ sampleOutsider.Guarded sampleMux sampleClaims ⟨some sampleState, .ok none⟩ sampleNow sampleNow := by
  constructor
  · intro h
    obtain ⟨-, hallows⟩ := h _ _ rfl rfl
    rcases hallows with hnone | ⟨domain, hdomain, user, huser⟩
    · cases hnone
    · rw [List.mem_singleton.mp hdomain] at huser
      have hof := ofDomain_iff.mpr ⟨"influxdata.com", List.mem_singleton_self _, user, huser⟩
      revert hof
      decide +kernel
  · intro h
    exact (h _ _ rfl rfl).1 rfl

end Configured

end Oauth2
end Chronograf
