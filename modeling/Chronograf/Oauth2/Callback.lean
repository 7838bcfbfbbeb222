/-
# The callback of a provider

`AuthMux.Callback` of `oauth2/mux.go`: the provider sends the browser back, the
code is exchanged for a token, the user is read from the id_token or looked up,
and a session is begun.

Key definitions: `AuthMux.callback`, `AuthMux.Granted`.
Key theorem: `AuthMux.callback_cookie_iff`.
-/
import Chronograf.Oauth2.Cookies
import Chronograf.Oauth2.Providers

namespace Chronograf
namespace Oauth2

def tenMinutes : Duration := 10 * 60 * second

structure AuthMux where
  auth : Cookies
  tokens : JWT
  successURL : String
  failureURL : String
  useIDToken : Bool

/-- What the browser is sent back with: the state, if it is a token, and the
answer to the exchange of the code: the id_token, if there is one. -/
structure Grant where
  state : Option Token
  exchange : Answer (Option Value)

/-- A redirect, with the cookie of a session that was begun. -/
structure Redirect where
  location : String
  cookie : Option Cookie

namespace AuthMux

variable (j : AuthMux)

/-- An id_token is inspected that is there and is not the empty string. -/
def inspects (idToken : Option Value) : Bool := j.useIDToken && idToken ≠ none && idToken ≠ some (.string "")

/-- The user and the group; both are empty if the provider does not read id_tokens. -/
def identify (provider : Provider) (getClaims : String → Answer Object) (idToken : Option Value) :
    Option (Answer (String × String)) :=
  if j.inspects idToken then
    match provider.fromClaims with
    | none => some (.ok ("", ""))
    | some (principalIDFromClaims, groupFromClaims) =>
      match idToken with
      | some (.string tokenString) => some do
        let claims ← getClaims tokenString
        let id ← principalIDFromClaims claims
        let group ← groupFromClaims claims
        return (id, group)
      | _ => some (.error "cannot cast id_token as string")
  else
    match provider.principalID with
    | none => none
    | some (.error err) => some (.error err)
    | some (.ok id) => provider.group.map fun group => group.map fun group => (id, group)

/-- `none` is a callback that is not answered yet. -/
def callback (provider : Provider) (getClaims : String → Answer Object) (grant : Grant) (validated now : Time) :
    Option Redirect :=
  let failure : Redirect := ⟨j.failureURL, none⟩
  match grant.state.map fun state => j.tokens.validClaims state tenMinutes validated with
  | none | some (.error _) => some failure
  | some (.ok _) =>
    match grant.exchange with
    | .error _ => some failure
    | .ok idToken =>
      match j.identify provider getClaims idToken with
      | none => none
      | some (.error _) => some failure
      | some (.ok (id, group)) =>
        let p : Principal := ⟨⟨id, provider.name, "", group⟩, 0, 0⟩
        some ⟨j.successURL, some (j.auth.authorize p now)⟩

/-! ### When a session is begun -/

/-- The state is valid and the code is exchanged. -/
def Granted (grant : Grant) (validated : Time) (idToken : Option Value) : Prop :=
  ∃ state p, grant.state = some state ∧ j.tokens.validClaims state tenMinutes validated = .ok p ∧
    grant.exchange = .ok idToken

variable {j} {provider : Provider} {getClaims : String → Answer Object} {grant : Grant} {validated now : Time}

/-- A session is begun if and only if the callback is granted and a user is found. -/
theorem callback_cookie_iff {cookie : Cookie} :
    (∃ redirect, j.callback provider getClaims grant validated now = some redirect ∧ redirect.cookie = some cookie) ↔
      ∃ idToken id group, j.Granted grant validated idToken ∧
        j.identify provider getClaims idToken = some (.ok (id, group)) ∧
          cookie = j.auth.authorize ⟨⟨id, provider.name, "", group⟩, 0, 0⟩ now := by
  constructor
  · rintro ⟨redirect, hcall, hcookie⟩
    unfold callback at hcall
    dsimp only at hcall
    split at hcall
    · cases hcall
      cases hcookie
    · cases hcall
      cases hcookie
    · rename_i p hstate
      obtain ⟨state, hgrant, hp⟩ := Option.map_eq_some_iff.mp hstate
      cases hex : grant.exchange with
      | error err =>
        simp only [hex, Option.some.injEq] at hcall
        subst hcall
        cases hcookie
      | ok idToken =>
        simp only [hex] at hcall
        split at hcall
        · cases hcall
        · cases hcall
          cases hcookie
        · rename_i id group hid
          cases hcall
          cases hcookie
          exact ⟨idToken, id, group, ⟨state, p, hgrant, hp, hex⟩, hid, rfl⟩
  · rintro ⟨idToken, id, group, ⟨state, p, hgrant, hp, hex⟩, hid, rfl⟩
    refine ⟨⟨j.successURL, some (j.auth.authorize ⟨⟨id, provider.name, "", group⟩, 0, 0⟩ now)⟩, ?_, rfl⟩
    unfold callback
    simp only [hgrant, Option.map_some, hp, hex, hid]

end AuthMux

end Oauth2
end Chronograf
