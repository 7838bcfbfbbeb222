/-
# Sessions that are extended

`Extend` moves the time at which a token expires and nothing else, and a token is
refused when it is for longer than the lifespan, counted from when it was issued.
So a session can be extended into a token that nobody accepts: in the last time
of inactivity of its lifespan, every request ends the session.

Key definitions: `Session.Usable`, `Session.Fits`.
Key theorems: `Claims.valid_ok_iff`, `JWT.validClaims_ok_iff`,
`Session.extended_usable_iff`.
-/
import Chronograf.Oauth2.Sessions

namespace Chronograf
namespace Oauth2

/-- A whole second that an instant is not after is not before the instant's own. -/
theorem unix_le_of_le {t u : ℤ} (h : t ≤ ofUnix u) : unix t ≤ u := by
  have hle := (unix_le t).1
  simp only [ofUnix, second] at hle h
  omega

/-- A whole second before an instant is at most the instant's own. -/
theorem le_unix_of_lt {t e d u : ℤ} (ht : t ≤ e) (h : ofUnix u < t + d) : u ≤ unix (e + d) := by
  have hlt := (unix_le (e + d)).2
  have hu : u * 1000000000 < t + d := h
  simp only [second] at hlt
  omega

/-! ### When a token is accepted -/

theorem Claims.valid_ok_iff {c : Claims} {now : ℤ} : c.valid now = .ok () ↔
    (c.expiresAt = 0 ∨ now ≤ c.expiresAt) ∧ (c.issuedAt = 0 ∨ c.issuedAt ≤ now) ∧
      (c.notBefore = 0 ∨ c.notBefore ≤ now) ∧ c.subject ≠ "" := by
  have hexp : c.verifyExpiresAt now = true ↔ c.expiresAt = 0 ∨ now ≤ c.expiresAt := by simp [verifyExpiresAt]
  have hiat : c.verifyIssuedAt now = true ↔ c.issuedAt = 0 ∨ c.issuedAt ≤ now := by simp [verifyIssuedAt]
  have hnbf : c.verifyNotBefore now = true ↔ c.notBefore = 0 ∨ c.notBefore ≤ now := by simp [verifyNotBefore]
  rw [← hexp, ← hiat, ← hnbf, valid, standardValid]
  cases c.verifyNotBefore now <;> cases c.verifyIssuedAt now <;> cases c.verifyExpiresAt now <;> simp

theorem JWT.validClaims_ok_iff {j : JWT} {token : Token} {lifespan : Duration} {now : Time} :
    (∃ p, j.validClaims token lifespan now = .ok p) ↔ token.secret = j.secret ∧ token.claims.valid (unix now) = .ok () ∧
      (0 < lifespan → (token.claims.expiresAt - token.claims.issuedAt) * second ≤ lifespan) := by
  have hsub : ofUnix token.claims.expiresAt - ofUnix token.claims.issuedAt =
      (token.claims.expiresAt - token.claims.issuedAt) * second := (Int.sub_mul _ _ _).symm
  unfold validClaims
  by_cases hsecret : token.secret = j.secret
  · rcases hvalid : token.claims.valid (unix now) with e | ⟨⟩
    · simp [hsecret]
    · simp only [hsecret, ne_eq, not_true, if_false, true_and, hsub]
      by_cases hlong : lifespan > 0 ∧ (token.claims.expiresAt - token.claims.issuedAt) * second > lifespan
      · rw [if_pos hlong]
        simp only [reduceCtorEq, exists_false, false_iff, not_forall]
        exact ⟨hlong.1, not_le.mpr hlong.2⟩
      · rw [if_neg hlong]
        refine iff_of_true ⟨_, rfl⟩ fun hpos => ?_
        by_contra hgt
        exact hlong ⟨hpos, not_le.mp hgt⟩
  · simp [hsecret]

namespace Session

variable {c : Cookies} {p : Principal} {now : Time}

/-! ### The instant of issue -/

/-- As long as the session is not authorized anew, its token says that it was
issued at the login. -/
theorem issuedAt_step {s : Session} {a : Action} (hs : s.reissued = false → s.token.claims.issuedAt = unix now) :
    (s.step c a).reissued = false → (s.step c a).token.claims.issuedAt = unix now := by
  unfold Session.step
  cases ha : a.accepted c s.token with
  | error err => exact hs
  | ok r =>
    obtain ⟨q, cookie⟩ := r
    cases hr : a.reissued c s.token with
    | some r =>
      intro h
      cases h
    | none =>
      intro h
      unfold Action.accepted authorizedToken Cookies.validate at ha
      cases hv : c.tokens.validClaims s.token c.lifespan a.validated with
      | error err => simp [hv] at ha
      | ok q' =>
        obtain ⟨-, -, -, -, -, hissued⟩ := JWT.validClaims_ok hv
        simp only [hv, Except.ok.injEq] at ha
        obtain rfl : (c.extend q' a.extended).2 = cookie := by rw [ha]
        show unix q'.issuedAt = unix now
        rw [hissued, unix_ofUnix]
        exact hs h

theorem issuedAt_run {s : Session} (acts : List Action) (hs : s.reissued = false → s.token.claims.issuedAt = unix now) :
    (s.run c acts).reissued = false → (s.run c acts).token.claims.issuedAt = unix now := by
  induction acts generalizing s with
  | nil => exact hs
  | cons a acts ih => exact ih (issuedAt_step hs)

/-! ### What an extension is good for -/

variable (c now) in
/-- The seconds at which an extended session is to be usable: from the request on,
before the time of inactivity is over and before the lifespan is. -/
def Due (validated : Time) (u : ℤ) : Prop :=
  validated ≤ ofUnix u ∧ ofUnix u < min (validated + c.inactivity) (now + c.lifespan)

variable (c now) in
/-- Every such second the new cookie is accepted. -/
def Usable (validated : Time) (cookie : Cookie) : Prop :=
  ∀ u, Due c now validated u → ∃ q, c.validate (some cookie.value) (ofUnix u) = .ok q

variable (c now) in
/-- From the login to when the new token expires, in whole seconds, is no longer
than the lifespan. -/
def Fits (extended : Time) : Prop := (unix (extended + c.inactivity) - unix now) * second ≤ c.lifespan

/-- In a session that was begun by a login and not authorized anew, a request
leaves a usable token exactly when the new token is for no longer than the
lifespan; or when no second is left to use it in. -/
theorem extended_usable_iff (secret : String) {lifespan : Duration} (hlife : 0 < lifespan) (p : Principal) (now : Time)
    (acts : List Action) {validated extended : Time} (hclock : validated ≤ extended) {q : Principal} {cookie : Cookie}
    (hissued : ((login (newCookieJWT secret lifespan) p now).run (newCookieJWT secret lifespan) acts).reissued = false)
    (h : authorizedToken (newCookieJWT secret lifespan)
      (some ((login (newCookieJWT secret lifespan) p now).run (newCookieJWT secret lifespan) acts).token)
      validated extended = .ok (q, cookie)) :
    Usable (newCookieJWT secret lifespan) now validated cookie ↔
      Fits (newCookieJWT secret lifespan) now extended ∨ ∀ u, ¬ Due (newCookieJWT secret lifespan) now validated u := by
  have hlifespan : (newCookieJWT secret lifespan).lifespan = lifespan := rfl
  generalize hc : newCookieJWT secret lifespan = c at *
  have hiat : ((login c p now).run c acts).token.claims.issuedAt = unix now := issuedAt_run acts (fun _ => rfl) hissued
  unfold authorizedToken Cookies.validate at h
  rcases hv : c.tokens.validClaims ((login c p now).run c acts).token c.lifespan validated with err | q'
  · simp [hv] at h
  obtain ⟨-, -, hsubject, -, -, hq⟩ := JWT.validClaims_ok hv
  obtain ⟨-, hvalid, -⟩ := JWT.validClaims_ok_iff.mp ⟨q', hv⟩
  obtain ⟨-, hnow, -, hnamed⟩ := Claims.valid_ok_iff.mp hvalid
  simp only [hv, Except.ok.injEq] at h
  obtain rfl : (c.extend q' extended).2 = cookie := by rw [h]
  have hissue : unix q'.issuedAt = unix now := by rw [hq, unix_ofUnix, hiat]
  rw [hiat] at hnow
  -- a second that is due fails the new token by its duration alone
  have haccepted : ∀ u, Due c now validated u →
      ((∃ q, c.validate (some (c.extend q' extended).2.value) (ofUnix u) = .ok q) ↔ Fits c now extended) := by
    intro u hu
    have hu_valid : unix validated ≤ u := unix_le_of_le hu.1
    have hu_exp : u ≤ unix (extended + c.inactivity) :=
      le_unix_of_lt hclock (lt_of_lt_of_le hu.2 (min_le_left _ _))
    have hclaims : (c.extend q' extended).2.value.claims.valid u = .ok () := by
      refine Claims.valid_ok_iff.mpr ⟨.inr hu_exp, ?_, ?_, ?_⟩
      · show unix q'.issuedAt = 0 ∨ unix q'.issuedAt ≤ u
        rw [hissue]
        exact hnow.imp_right hu_valid.trans'
      · show unix q'.issuedAt = 0 ∨ unix q'.issuedAt ≤ u
        rw [hissue]
        exact hnow.imp_right hu_valid.trans'
      · show q'.subject ≠ ""
        rw [hsubject]
        exact hnamed
    refine JWT.validClaims_ok_iff.trans ?_
    rw [unix_ofUnix, hlifespan]
    have hduration : ((c.extend q' extended).2.value.claims.expiresAt - (c.extend q' extended).2.value.claims.issuedAt) * second
        ≤ lifespan ↔ Fits c now extended := by
      show (unix (extended + c.inactivity) - unix q'.issuedAt) * second ≤ lifespan ↔ _
      rw [hissue, Fits, hlifespan]
    constructor
    · rintro ⟨-, -, hdur⟩
      exact hduration.mp (hdur hlife)
    · intro hfits
      exact ⟨rfl, hclaims, fun _ => hduration.mpr hfits⟩
  constructor
  · intro hall
    by_contra hno
    obtain ⟨hfits, hdue⟩ := not_or.mp hno
    push Not at hdue
    obtain ⟨u, hu⟩ := hdue
    exact hfits ((haccepted u hu).mp (hall u hu))
  · rintro (hfits | hnone) u hu
    · exact (haccepted u hu).mpr hfits
    · exact absurd hu (hnone u)

/-! ### The last five minutes -/

/-- A request half-way through the ten minutes of a session leaves a usable token. -/
theorem early_extension_usable : ∃ q cookie,
    authorizedToken sampleCookies (some (login sampleCookies samplePrincipal sampleLogin).token)
      (sampleLogin + 250 * second) (sampleLogin + 250 * second) = .ok (q, cookie) ∧
    Usable sampleCookies sampleLogin (sampleLogin + 250 * second) cookie := by
  have hfits : Fits sampleCookies sampleLogin (sampleLogin + 250 * second) := by
    unfold Fits
    decide
  refine ⟨_, _, rfl, ?_⟩
  exact (extended_usable_iff "secret" (by decide) samplePrincipal sampleLogin [] le_rfl rfl rfl).mpr (.inl hfits)

/-- One more than five minutes into them does not: the token it leaves is refused
in the same second. -/
theorem late_extension_refused : ∃ q cookie,
    authorizedToken sampleCookies
      (some ((login sampleCookies samplePrincipal sampleLogin).run sampleCookies [sampleRequest (250 * second)]).token)
      (sampleLogin + 500 * second) (sampleLogin + 500 * second) = .ok (q, cookie) ∧
    Due sampleCookies sampleLogin (sampleLogin + 500 * second) 1600000500 ∧
    ¬ Usable sampleCookies sampleLogin (sampleLogin + 500 * second) cookie := by
  have hdue : Due sampleCookies sampleLogin (sampleLogin + 500 * second) 1600000500 := by
    unfold Due
    decide
  refine ⟨_, _, rfl, hdue, fun h => ?_⟩
  obtain ⟨q, hq⟩ := h _ hdue
  cases hq

end Session

end Oauth2
end Chronograf
