/-
# Sessions

What becomes of the session of one browser that always presents the cookie it
was given last: it is begun by a login, `AuthorizedToken` extends it with every
request, and `UpdateMe` has it authorized anew when the user changes to another
organization.

Key definitions: `authorizedToken`, `updateMe`, `Session`, `Action`,
`Session.run`.
Key theorem: `Session.accepted_in_time`.
-/
import Chronograf.Lib.Runs
import Chronograf.Oauth2.Cookies

namespace Chronograf
namespace Oauth2

variable (c : Cookies)

/-- `AuthorizedToken`: the token is validated, and then extended, at two readings
of the clock. -/
def authorizedToken (token : Option Token) (validated extended : Time) : Except AuthError (Principal × Cookie) :=
  match c.validate token validated with
  | .error err => .error err
  | .ok principal => .ok (c.extend principal extended)

/-- What `UpdateMe` does with the session: the principal of the request's token
is authorized in the organization, if the user `joined` it. -/
def updateMe (token : Option Token) (organization : String) (joined : Bool) (validated authorized : Time) :
    Option Cookie :=
  match c.validate token validated with
  | .error _ => none
  | .ok principal =>
    if joined then some (c.authorize { principal with organization } authorized) else none

/-- What the browser does, with the readings of the server's clock. -/
inductive Action
  | request (validated extended : Time)
  | updateMe (organization : String) (joined : Bool) (validated extended revalidated authorized : Time)

namespace Action

/-- The reading at which the request's token is validated. -/
def validated : Action → Time
  | request validated _ => validated
  | updateMe _ _ validated _ _ _ => validated

/-- The readings from which new tokens are made. -/
def readings : Action → List Time
  | request _ extended => [extended]
  | updateMe _ _ _ extended _ authorized => [extended, authorized]

/-- The reading at which the request's token is extended. -/
def extended : Action → Time
  | request _ extended => extended
  | updateMe _ _ _ extended _ _ => extended

/-- The principal that the request is accepted for, if it is, and its cookie. -/
def accepted (token : Token) (a : Action) : Except AuthError (Principal × Cookie) :=
  authorizedToken c (some token) a.validated a.extended

/-- The cookie of the handler behind the middleware, if it sets one. -/
def reissued (token : Token) : Action → Option (Cookie × Time)
  | request _ _ => none
  | updateMe organization joined _ _ revalidated authorized =>
    (Oauth2.updateMe c (some token) organization joined revalidated authorized).map fun cookie => (cookie, authorized)

end Action

/-- The browser's token, and what is known of its past: when a request, or the
login, was accepted last, and whether the session was authorized anew. -/
structure Session where
  token : Token
  lastAccepted : Time
  reissued : Bool

namespace Session

/-- The session that a login begins. -/
def login (p : Principal) (now : Time) : Session := ⟨(c.authorize p now).value, now, false⟩

/-- Of two cookies with the same name the one set last counts. -/
def step (s : Session) (a : Action) : Session :=
  match a.accepted c s.token with
  | .error _ => s
  | .ok (_, cookie) =>
    match a.reissued c s.token with
    | none => ⟨cookie.value, a.extended, s.reissued⟩
    | some (cookie, authorized) => ⟨cookie.value, authorized, true⟩

def run (s : Session) (acts : List Action) : Session := acts.foldl (step c) s

/-! ### What a session keeps -/

/-- The token of a session is for the principal `p`, good for the time of
inactivity, and issued at the login unless it was issued anew. -/
structure Kept (p : Principal) (login : Time) (s : Session) : Prop where
  subject : s.token.claims.subject = p.subject
  issuer : s.token.claims.issuer = p.issuer
  group : s.token.claims.group = p.group
  expiresAt : s.token.claims.expiresAt = unix (s.lastAccepted + c.inactivity)
  issuedAt : s.reissued = false → s.token.claims.issuedAt = unix login
  clock : second ≤ s.lastAccepted + c.inactivity

variable {c} {p : Principal} {now : Time}

theorem kept_login (hclock : second ≤ now + c.inactivity) : Kept c p now (login c p now) :=
  ⟨rfl, rfl, rfl, rfl, fun _ => rfl, hclock⟩

/-- What `UpdateMe` makes of a session. -/
theorem kept_reissued {s : Session} {a : Action} {cookie : Cookie} {authorized : Time} (hs : Kept c p now s)
    (h : a.reissued c s.token = some (cookie, authorized)) :
    authorized ∈ a.readings ∧
      (second ≤ authorized + c.inactivity → Kept c p now ⟨cookie.value, authorized, true⟩) := by
  cases a with
  | request => cases h
  | updateMe organization joined validated extended revalidated authorized' =>
    simp only [Action.reissued, updateMe, Cookies.validate] at h
    cases hv : c.tokens.validClaims s.token c.lifespan revalidated with
    | error err => simp [hv] at h
    | ok q =>
      obtain ⟨-, -, hsubject, hissuer, hgroup, -⟩ := JWT.validClaims_ok hv
      cases joined with
      | false => simp [hv] at h
      | true =>
        simp only [hv, if_true, Option.map_some, Option.some.injEq, Prod.mk.injEq] at h
        obtain ⟨rfl, rfl⟩ := h
        refine ⟨by simp [Action.readings], fun hclock => ?_⟩
        exact ⟨hsubject.trans hs.subject, hissuer.trans hs.issuer, hgroup.trans hs.group, rfl, nofun, hclock⟩

theorem Kept.step {s : Session} {a : Action} (hs : Kept c p now s)
    (hclock : ∀ t ∈ a.readings, second ≤ t + c.inactivity) : Kept c p now (s.step c a) := by
  unfold Session.step
  cases ha : a.accepted c s.token with
  | error err => exact hs
  | ok r =>
    obtain ⟨q, cookie⟩ := r
    cases hr : a.reissued c s.token with
    | some r =>
      obtain ⟨cookie', authorized⟩ := r
      obtain ⟨hmem, hkept⟩ := kept_reissued hs hr
      exact hkept (hclock authorized hmem)
    | none =>
      unfold Action.accepted authorizedToken Cookies.validate at ha
      cases hv : c.tokens.validClaims s.token c.lifespan a.validated with
      | error err => simp [hv] at ha
      | ok q' =>
        obtain ⟨-, -, hsubject, hissuer, hgroup, hissued⟩ := JWT.validClaims_ok hv
        simp only [hv, Except.ok.injEq] at ha
        have hcookie : cookie = (c.extend q' a.extended).2 := by rw [ha]
        have hextended : a.extended ∈ a.readings := by cases a <;> simp [Action.readings, Action.extended]
        subst hcookie
        refine ⟨hsubject.trans hs.subject, hissuer.trans hs.issuer, hgroup.trans hs.group, rfl, fun h => ?_,
          hclock _ hextended⟩
        show unix q'.issuedAt = unix now
        rw [hissued, unix_ofUnix]
        exact hs.issuedAt h

theorem Kept.run {s : Session} (hs : Kept c p now s) (acts : List Action)
    (hclock : ∀ t ∈ acts.flatMap Action.readings, second ≤ t + c.inactivity) : Kept c p now (s.run c acts) := by
  induction acts generalizing s with
  | nil => exact hs
  | cons a acts ih =>
    simp only [List.flatMap_cons, List.mem_append] at hclock
    exact ih (hs.step fun t ht => hclock t (.inl ht)) fun t ht => hclock t (.inr ht)

/-- A request that is accepted comes less than a second after the whole seconds
in which the token may be used. -/
theorem Kept.accepted {s : Session} {a : Action} {q : Principal} {cookie : Cookie} (hs : Kept c p now s)
    (hlife : 0 < c.lifespan) (h : a.accepted c s.token = .ok (q, cookie)) :
    a.validated < s.lastAccepted + c.inactivity + second ∧
      (s.reissued = false → a.validated < now + c.lifespan + second) ∧
      q.subject = p.subject ∧ q.issuer = p.issuer ∧ q.group = p.group := by
  unfold Action.accepted authorizedToken Cookies.validate at h
  cases hv : c.tokens.validClaims s.token c.lifespan a.validated with
  | error err => simp [hv] at h
  | ok q' =>
    obtain ⟨hexp, hdur, hsubject, hissuer, hgroup, -⟩ := JWT.validClaims_ok hv
    simp only [hv, Except.ok.injEq] at h
    have hq : q = (c.extend q' a.extended).1 := by rw [h]
    subst hq
    have hpos : s.token.claims.expiresAt ≠ 0 := by
      rw [hs.expiresAt]
      exact (unix_pos hs.clock).ne'
    have hnow : unix a.validated ≤ s.token.claims.expiresAt := hexp.resolve_left hpos
    refine ⟨?_, fun hissued => ?_, hsubject.trans hs.subject, hissuer.trans hs.issuer, hgroup.trans hs.group⟩
    · rw [hs.expiresAt] at hnow
      exact lt_of_unix_le hnow
    · have hdur := hdur hlife
      rw [hs.issuedAt hissued] at hdur
      exact lt_of_unix_le_add hnow hdur

/-- As long as the session was not authorized anew, no request is accepted a
second or more later than the lifespan after the login; and none is, a second or
more later than the time of inactivity after the one accepted before it. Every
request is accepted for the principal of the login. -/
theorem accepted_in_time (hlife : 0 < c.lifespan) (acts : List Action)
    (hclock : ∀ t ∈ now :: acts.flatMap Action.readings, second ≤ t + c.inactivity) {a : Action} {q : Principal}
    {cookie : Cookie} (h : a.accepted c ((login c p now).run c acts).token = .ok (q, cookie)) :
    a.validated < ((login c p now).run c acts).lastAccepted + c.inactivity + second ∧
      (((login c p now).run c acts).reissued = false → a.validated < now + c.lifespan + second) ∧
      q.subject = p.subject ∧ q.issuer = p.issuer ∧ q.group = p.group := by
  have hlogin : Kept c p now (login c p now) := kept_login (hclock now (by simp))
  have hrun := hlogin.run acts fun t ht => hclock t (by simp [ht])
  exact hrun.accepted hlife h

/-! ### Requests that come late -/

variable (c p now) in
/-- The bounds to the nanosecond, of every session. -/
def Exact (acts : List Action) (a : Action) : Prop :=
  ∀ q cookie, a.accepted c ((login c p now).run c acts).token = .ok (q, cookie) →
    a.validated ≤ now + c.lifespan ∧ a.validated ≤ ((login c p now).run c acts).lastAccepted + c.inactivity ∧
      q.subject = p.subject ∧ q.issuer = p.issuer ∧ q.group = p.group

def samplePrincipal : Principal := ⟨⟨"marty", "github", "0", "influxdata"⟩, 0, 0⟩

def sampleLogin : Time := 1600000000 * second

/-- Ten minutes of lifespan, five of inactivity. -/
def sampleCookies : Cookies := newCookieJWT "secret" (600 * second)

/-- A request so long after the login. -/
def sampleRequest (after : Duration) : Action := .request (sampleLogin + after) (sampleLogin + after)

theorem accepted_in_time_extended :
    (sampleRequest (500 * second)).validated < sampleLogin + 250 * second + 300 * second + second ∧
      (sampleRequest (500 * second)).validated < sampleLogin + 600 * second + second := by
  have hread : ∀ t ∈ sampleLogin :: [sampleRequest (250 * second)].flatMap Action.readings,
      second ≤ t + sampleCookies.inactivity := by decide
  obtain ⟨r, hr⟩ : ∃ r, (sampleRequest (500 * second)).accepted sampleCookies
      ((login sampleCookies samplePrincipal sampleLogin).run sampleCookies
        [sampleRequest (250 * second)]).token = .ok r := ⟨_, rfl⟩
  obtain ⟨hidle, hlife, -⟩ := accepted_in_time (by decide) [sampleRequest (250 * second)] hread hr
  exact ⟨hidle, hlife rfl⟩

/-- The user changes to another organization. -/
def sampleSwitch (after : Duration) : Action :=
  .updateMe "1" true (sampleLogin + after) (sampleLogin + after) (sampleLogin + after) (sampleLogin + after)

/-- A request half a second after the time of inactivity; one more than three
minutes after the lifespan, when the user has changed to another organization;
and, at the start of 1970, one after any time. -/
theorem late_requests_accepted :
    ¬ Exact sampleCookies samplePrincipal sampleLogin [] (sampleRequest (300 * second + 500000000)) ∧
      ¬ Exact sampleCookies samplePrincipal sampleLogin
        [sampleRequest (250 * second), sampleSwitch (500 * second)] (sampleRequest (790 * second)) ∧
      ¬ Exact (newCookieJWT "secret" second) samplePrincipal 0 [] (.request (100 * second) (100 * second)) := by
  refine ⟨fun h => ?_, fun h => ?_, fun h => ?_⟩
  · have hlate := (h _ _ rfl).2.1
    revert hlate
    decide
  · have hlate := (h _ _ rfl).1
    revert hlate
    decide
  · have hlate := (h _ _ rfl).1
    revert hlate
    decide

end Session

end Oauth2
end Chronograf
