/-
# Cookies

`oauth2/cookies.go`: the session of a browser is a cookie with a token in it.
A token is good for the time of inactivity, and is extended by every request;
the lifespan is reckoned from when it was issued.

Key definitions: `Cookies`, `newCookieJWT`, `Cookies.validate`,
`Cookies.extend`, `Cookies.authorize`.
-/
import Chronograf.Oauth2.Jwt

namespace Chronograf
namespace Oauth2

def defaultCookieName : String := "session"

def defaultInactivityDuration : Duration := 5 * 60 * second

/-- The authenticator `cookie`: what new cookies are made with. -/
structure Cookies where
  name : String
  lifespan : Duration
  inactivity : Duration
  tokens : JWT

/-- A cookie as it is set; one that does not expire lasts as long as the browser. -/
structure Cookie where
  name : String
  value : Token
  httpOnly : Bool
  path : String
  expires : Option Time

/-- The time of inactivity is less than the lifespan, so that a token can be extended. -/
def newCookieJWT (secret : String) (lifespan : Duration) : Cookies :=
  { name := defaultCookieName
    lifespan
    inactivity := if lifespan > 0 ∧ defaultInactivityDuration > lifespan then lifespan.tdiv 2
      else defaultInactivityDuration
    tokens := ⟨secret⟩ }

namespace Cookies

variable (c : Cookies)

/-- The token that the request has in its cookie, if it has one. -/
def validate (token : Option Token) (now : Time) : Except AuthError Principal :=
  match token with
  | none => .error .authentication
  | some token => c.tokens.validClaims token c.lifespan now

def setCookie (value : Token) (exp : Time) : Cookie :=
  { name := defaultCookieName, value, httpOnly := true, path := "/",
    expires := if c.lifespan > 0 then some exp else none }

/-- The principal is one that was found valid. -/
def extend (p : Principal) (now : Time) : Principal × Cookie :=
  let p := JWT.extendedPrincipal p c.inactivity now
  (p, c.setCookie (c.tokens.create p) (p.issuedAt + c.lifespan))

def authorize (p : Principal) (now : Time) : Cookie :=
  let p := { p with issuedAt := now, expiresAt := now + c.inactivity }
  c.setCookie (c.tokens.create p) (now + c.lifespan)

end Cookies

end Oauth2
end Chronograf
