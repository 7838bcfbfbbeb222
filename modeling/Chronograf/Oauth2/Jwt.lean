/-
# Tokens

`oauth2/jwt.go`: a principal is kept in a signed token whose instants are whole
seconds. The signature is taken as perfect: a token carries the secret it was
signed with.

Key definitions: `Principal`, `Claims`, `JWT.create`, `JWT.validClaims`.
Key theorem: `JWT.validClaims_ok`.
-/
import Chronograf.Context
import Mathlib.Data.Int.Notation
import Mathlib.Order.Defs.LinearOrder
import Mathlib.Tactic.Cases
import Mathlib.Tactic.SplitIfs

namespace Chronograf
namespace Oauth2

/-- Nanoseconds since the start of 1970. -/
abbrev Time := ℤ

/-- Nanoseconds. -/
abbrev Duration := ℤ

def second : Duration := 1000000000

/-- `Time.Unix`, in whole seconds. -/
def unix (t : Time) : ℤ := t / second

/-- `time.Unix(seconds, 0)`. -/
def ofUnix (seconds : ℤ) : Time := seconds * second

@[simp] theorem unix_ofUnix (s : ℤ) : unix (ofUnix s) = s := Int.mul_ediv_cancel s (by decide)

/-- An instant is less than a second after its whole seconds. -/
theorem unix_le (t : ℤ) : unix t * second ≤ t ∧ t < unix t * second + second := by
  show t / 1000000000 * 1000000000 ≤ t ∧ t < t / 1000000000 * 1000000000 + 1000000000
  omega

theorem unix_pos {t : ℤ} (h : second ≤ t) : 0 < unix t := by
  have hlt := (unix_le t).2
  have hle : 1000000000 ≤ t := h
  simp only [second] at hlt
  omega

/-- What is at most as many whole seconds as `u` is less than a second after `u`. -/
theorem lt_of_unix_le {t u : ℤ} (h : unix t ≤ unix u) : t < u + second := by
  have ht := (unix_le t).2
  have hu := (unix_le u).1
  simp only [second] at ht hu ⊢
  omega

/-- What is at most the seconds `e`, themselves at most `d` after `u`. -/
theorem lt_of_unix_le_add {t u e d : ℤ} (h : unix t ≤ e) (he : (e - unix u) * second ≤ d) : t < u + d + second := by
  have ht := (unix_le t).2
  have hu := (unix_le u).1
  simp only [second] at ht hu he ⊢
  omega

/-- A principal and the time its session is for. -/
structure Principal extends Chronograf.Principal where
  expiresAt : Time
  issuedAt : Time
  deriving DecidableEq

inductive AuthError
  | authentication
  | signature
  | expired
  | usedBeforeIssued
  | notValidYet
  | noSubject
  | lifespan
  deriving DecidableEq, Repr

/-- The claims of a token; an instant that is zero is one that is not claimed. -/
structure Claims where
  subject : String
  issuer : String
  expiresAt : ℤ
  issuedAt : ℤ
  notBefore : ℤ
  organization : String
  group : String
  deriving DecidableEq

namespace Claims

variable (c : Claims) (now : ℤ)

def verifyExpiresAt : Bool := c.expiresAt = 0 || now ≤ c.expiresAt

def verifyIssuedAt : Bool := c.issuedAt = 0 || now ≥ c.issuedAt

def verifyNotBefore : Bool := c.notBefore = 0 || now ≥ c.notBefore

/-- The checks of the standard claims: the last error is the one given. -/
def standardValid : Except AuthError Unit :=
  if c.verifyNotBefore now = false then .error .notValidYet
  else if c.verifyIssuedAt now = false then .error .usedBeforeIssued
  else if c.verifyExpiresAt now = false then .error .expired
  else .ok ()

def valid : Except AuthError Unit :=
  match c.standardValid now with
  | .error err => .error err
  | .ok () => if c.subject = "" then .error .noSubject else .ok ()

variable {c now}

theorem standardValid_ok (h : c.standardValid now = .ok ()) : c.verifyExpiresAt now = true := by
  unfold standardValid at h
  by_contra hexp
  rw [Bool.not_eq_true] at hexp
  rw [if_pos hexp] at h
  split_ifs at h

theorem valid_ok (h : c.valid now = .ok ()) : c.expiresAt = 0 ∨ now ≤ c.expiresAt := by
  have hstandard : c.standardValid now = .ok () := by
    unfold valid at h
    cases hs : c.standardValid now with
    | error err => simp [hs] at h
    | ok u => rfl
  simpa [verifyExpiresAt] using standardValid_ok hstandard

end Claims

/-- A signed token. -/
structure Token where
  secret : String
  claims : Claims
  deriving DecidableEq

structure JWT where
  secret : String

namespace JWT

variable (j : JWT)

def create (user : Principal) : Token :=
  ⟨j.secret,
    { subject := user.subject
      issuer := user.issuer
      expiresAt := unix user.expiresAt
      issuedAt := unix user.issuedAt
      notBefore := unix user.issuedAt
      organization := user.organization
      group := user.group }⟩

/-- The token is parsed at the instant `now`; a lifespan of zero is not checked. -/
def validClaims (token : Token) (lifespan : Duration) (now : Time) : Except AuthError Principal :=
  if token.secret ≠ j.secret then .error .signature
  else match token.claims.valid (unix now) with
    | .error err => .error err
    | .ok () =>
      let exp := ofUnix token.claims.expiresAt
      let iat := ofUnix token.claims.issuedAt
      if lifespan > 0 ∧ exp - iat > lifespan then .error .lifespan
      else .ok
        { subject := token.claims.subject
          issuer := token.claims.issuer
          organization := token.claims.organization
          group := token.claims.group
          expiresAt := exp
          issuedAt := iat }

/-- The instant of issue stays as it is: it is what the lifetime of a token is
reckoned from. -/
def extendedPrincipal (principal : Principal) (extension : Duration) (now : Time) : Principal :=
  { principal with expiresAt := now + extension }

variable {j}

/-- A token that is accepted has not expired, is for no longer than the
lifespan, and gives the principal it was made for. -/
theorem validClaims_ok {token : Token} {lifespan : Duration} {now : Time} {p : Principal}
    (h : j.validClaims token lifespan now = .ok p) :
    (token.claims.expiresAt = 0 ∨ unix now ≤ token.claims.expiresAt) ∧
      (0 < lifespan → (token.claims.expiresAt - token.claims.issuedAt) * second ≤ lifespan) ∧
      p.subject = token.claims.subject ∧ p.issuer = token.claims.issuer ∧ p.group = token.claims.group ∧
      p.issuedAt = ofUnix token.claims.issuedAt := by
  unfold validClaims at h
  split at h
  · cases h
  · split at h
    · cases h
    · rename_i hvalid
      dsimp only at h
      split at h
      · cases h
      · rename_i hlife
        cases h
        refine ⟨Claims.valid_ok hvalid, fun hpos => ?_, rfl, rfl, rfl, rfl⟩
        have hle : ofUnix token.claims.expiresAt - ofUnix token.claims.issuedAt ≤ lifespan := by
          by_contra hgt
          exact hlife ⟨hpos, not_le.mp hgt⟩
        rwa [Int.sub_mul]

end JWT

end Oauth2
end Chronograf
