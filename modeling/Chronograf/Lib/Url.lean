/-
# URLs, taken apart

The parsing of `net/url`: scheme, authority, path, query and fragment of a text.
What may stand escaped in a part is left to `Escapes`; the parts are kept as they
stand in the text. Where a URL leads (`home`) can be read off the text after its
scheme (`home_of_parse`), so text put behind it leads elsewhere only if the
authority was still open.

Key definitions: `Url`, `Url.getscheme`, `Url.parse`, `Url.parseRequestURI`,
`Url.HasScheme`, `Url.authorityOf`.
Key theorems: `Url.home_of_parse`, `Url.hasScheme_of_parseRequestURI`,
`Url.authorityOf_append`, `Url.parse_authority`.
-/
import Chronograf.Lib.Checks
import Mathlib

/-- The authority is the user information and the host; `rootless` is what follows
the scheme of a URL that has no slash there. -/
structure Url where
  scheme : List Char
  rootless : List Char
  authority : List Char
  path : List Char
  forceQuery : Bool
  rawQuery : List Char
  fragment : List Char
  deriving DecidableEq

namespace Url

/-- What may stand in the parts, or the error. -/
structure Escapes where
  authority : List Char → Except String Unit
  path : List Char → Except String Unit
  fragment : List Char → Except String Unit

/-! ### Parsing -/

def schemeChar (c : Char) : Bool := c.isAlphanum || c = '+' || c = '-' || c = '.'

/-- The scheme, if there is one, and the rest. -/
def getscheme (rawurl : List Char) : Except String (List Char × List Char) :=
  match rawurl.takeWhile schemeChar, rawurl.dropWhile schemeChar with
  | [], ':' :: _ => .error "missing protocol scheme"
  | c :: cs, ':' :: rest => .ok (if c.isAlpha then (c :: cs, rest) else ([], rawurl))
  | _, _ => .ok ([], rawurl)

/-- The text before the first `c`, and after it. -/
def cut (c : Char) (s : List Char) : List Char × List Char := (s.takeWhile (· ≠ c), (s.dropWhile (· ≠ c)).tail)

/-- The text before the query, whether a query is forced, and the query. -/
def splitQuery (s : List Char) : List Char × Bool × List Char :=
  if s.getLast? = some '?' ∧ s.count '?' = 1 then (s.dropLast, true, []) else ((cut '?' s).1, false, (cut '?' s).2)

/-- The first segment of a path contains a colon. -/
def colonFirst (rest : List Char) : Bool := (rest.takeWhile (· ≠ '/')).contains ':'

def parseRaw (esc : Escapes) (viaRequest : Bool) (rawurl : List Char) : Except String Url :=
  if rawurl = [] ∧ viaRequest then .error "empty url"
  else if rawurl = ['*'] then .ok ⟨[], [], [], ['*'], false, [], []⟩
  else do
    let (scheme, rest) ← getscheme rawurl
    let scheme := scheme.map Char.toLower
    let (rest, forceQuery, rawQuery) := splitQuery rest
    if rest.head? ≠ some '/' ∧ scheme ≠ [] then .ok ⟨scheme, rest, [], [], forceQuery, rawQuery, []⟩
    else if rest.head? ≠ some '/' ∧ viaRequest then .error "invalid URI for request"
    else if rest.head? ≠ some '/' ∧ colonFirst rest then .error "first path segment in URL cannot contain colon"
    else if (scheme ≠ [] ∨ ¬ viaRequest ∧ ¬ ['/', '/', '/'] <+: rest) ∧ ['/', '/'] <+: rest then do
      let authority := (rest.drop 2).takeWhile (· ≠ '/')
      let path := (rest.drop 2).dropWhile (· ≠ '/')
      esc.authority authority
      esc.path path
      .ok ⟨scheme, [], authority, path, forceQuery, rawQuery, []⟩
    else do
      esc.path rest
      .ok ⟨scheme, [], [], rest, forceQuery, rawQuery, []⟩

/-- The text of an error. -/
def failure (rawurl : List Char) (err : String) : String := "parse " ++ String.ofList rawurl ++ ": " ++ err

def parse (esc : Escapes) (rawurl : List Char) : Except String Url := do
  let (u, frag) := cut '#' rawurl
  let url ← (parseRaw esc false u).mapError (failure u)
  if frag = [] then .ok url
  else do
    (esc.fragment frag).mapError (failure rawurl)
    .ok { url with fragment := frag }

def parseRequestURI (esc : Escapes) (rawurl : List Char) : Except String Url :=
  (parseRaw esc true rawurl).mapError (failure rawurl)

/-! ### Where a URL leads -/

/-- The scheme and the authority. -/
def home (u : Url) : List Char × List Char := (u.scheme, u.authority)

/-- The text is `scheme`, a colon and `rest`. -/
structure HasScheme (s scheme rest : List Char) : Prop where
  text : s = scheme ++ ':' :: rest
  chars : ∀ c ∈ scheme, schemeChar c = true
  alpha : ∃ c cs, scheme = c :: cs ∧ c.isAlpha = true

/-- An authority ends at the path, the query or the fragment. -/
def authorityChar (c : Char) : Bool := c ≠ '/' && c ≠ '?' && c ≠ '#'

/-- The authority in what follows a scheme. -/
def authorityOf : List Char → List Char
  | '/' :: '/' :: t => t.takeWhile authorityChar
  | _ => []

variable {esc : Escapes} {s scheme rest : List Char} {u : Url}

namespace HasScheme

variable (h : HasScheme s scheme rest)

include h

theorem getscheme : getscheme s = .ok (scheme, rest) := by
  obtain ⟨rfl, hchars, c, cs, rfl, halpha⟩ := h
  have htake : (c :: cs ++ ':' :: rest).takeWhile schemeChar = c :: cs := by
    rw [List.takeWhile_append_of_pos hchars]
    simp [schemeChar]
  have hdrop : (c :: cs ++ ':' :: rest).dropWhile schemeChar = ':' :: rest := by
    rw [List.dropWhile_append_of_pos hchars]
    simp [schemeChar]
  unfold Url.getscheme
  rw [htake, hdrop]
  simp [halpha]

theorem ne_nil : scheme ≠ [] := by
  obtain ⟨c, cs, rfl, -⟩ := h.alpha
  exact List.cons_ne_nil c cs

theorem append (w : List Char) : HasScheme (s ++ w) scheme (rest ++ w) where
  text := by rw [h.text, List.append_assoc, List.cons_append]
  chars := h.chars
  alpha := h.alpha

/-- A fragment that is cut off leaves the scheme. -/
theorem cut : HasScheme (Url.cut '#' s).1 scheme (rest.takeWhile (· ≠ '#')) where
  text := by
    have hno : ∀ c ∈ scheme, decide (c ≠ '#') = true := by
      intro c hc
      refine decide_eq_true fun hcut => ?_
      have := h.chars c hc
      rw [hcut] at this
      simp [schemeChar, Char.isAlphanum, Char.isAlpha, Char.isUpper, Char.isLower, Char.isDigit] at this
    show s.takeWhile _ = _
    rw [h.text, List.takeWhile_append_of_pos hno]
    simp
  chars := h.chars
  alpha := h.alpha

theorem ne_star : s ≠ ['*'] := by
  obtain ⟨c, cs, rfl, -⟩ := h.alpha
  rw [h.text]
  simp

end HasScheme

theorem hasScheme_of_getscheme (h : getscheme s = .ok (scheme, rest)) (hne : scheme ≠ []) : HasScheme s scheme rest := by
  have hs := (List.takeWhile_append_dropWhile (p := schemeChar) (l := s)).symm
  unfold getscheme at h
  split at h
  · cases h
  · next c cs rest' htake hdrop =>
    obtain ⟨rfl, rfl⟩ : c :: cs = scheme ∧ rest' = rest := by
      split_ifs at h with halpha
      · exact ⟨(Prod.mk.inj (Except.ok.inj h)).1, (Prod.mk.inj (Except.ok.inj h)).2⟩
      · exact absurd (Prod.mk.inj (Except.ok.inj h)).1.symm hne
    refine ⟨by rw [hs, htake, hdrop], fun d hd => ?_, c, cs, rfl, ?_⟩
    · rw [← htake] at hd
      exact List.mem_takeWhile_imp hd
    · by_contra halpha
      rw [if_neg halpha] at h
      exact absurd (Prod.mk.inj (Except.ok.inj h)).1 (by simp)
  · exact absurd (Prod.mk.inj (Except.ok.inj h)).1.symm hne

theorem splitQuery_fst (s : List Char) : (splitQuery s).1 = s.takeWhile (· ≠ '?') := by
  unfold splitQuery
  split_ifs with h
  · obtain ⟨t, rfl⟩ : ∃ t, s = t ++ ['?'] := List.getLast?_eq_some_iff.mp h.1
    have hcount : t.count '?' = 0 := by
      have := h.2
      rw [List.count_append] at this
      simpa using this
    have ht : ∀ c ∈ t, decide (c ≠ '?') = true := fun c hc => decide_eq_true fun hq =>
      List.count_eq_zero.mp hcount (hq ▸ hc)
    rw [List.takeWhile_append_of_pos ht]
    simp
  · rfl

/-- What the parser takes for the authority, before it looks for one. -/
theorem authorityOf_takeWhile (rest : List Char) :
    authorityOf rest = if ['/', '/'] <+: (rest.takeWhile (· ≠ '#')).takeWhile (· ≠ '?') then
      (((rest.takeWhile (· ≠ '#')).takeWhile (· ≠ '?')).drop 2).takeWhile (· ≠ '/') else [] := by
  rcases rest with _ | ⟨a, _ | ⟨b, t⟩⟩
  · rfl
  · simp only [authorityOf]
    rw [if_neg]
    intro h
    have hlen := h.length_le.trans ((List.takeWhile_prefix _).trans (List.takeWhile_prefix _)).length_le
    simp at hlen
  · by_cases hab : a = '/' ∧ b = '/'
    · obtain ⟨rfl, rfl⟩ := hab
      simp only [authorityOf, List.takeWhile_takeWhile, ne_eq, decide_not, Char.reduceEq, decide_false, Bool.not_false,
        List.takeWhile_cons_of_pos, if_pos, List.cons_prefix_cons, List.nil_prefix, true_and,
        List.drop_succ_cons, List.drop_zero]
      congr 1
      funext c
      simp [authorityChar, Bool.and_assoc]
    · have hno : ¬ ['/', '/'] <+: ((a :: b :: t).takeWhile (· ≠ '#')).takeWhile (· ≠ '?') := by
        intro h
        have hpre := h.trans ((List.takeWhile_prefix _).trans (List.takeWhile_prefix _))
        rw [List.cons_prefix_cons, List.cons_prefix_cons] at hpre
        exact hab ⟨hpre.1.symm, hpre.2.1.symm⟩
      rw [if_neg hno]
      unfold authorityOf
      split
      · next h => exact absurd ⟨(List.cons.inj h).1, (List.cons.inj (List.cons.inj h).2).1⟩ hab
      · rfl

/-- Behind a scheme, an authority follows two slashes. -/
theorem home_of_parseRaw {viaRequest : Bool} (h : HasScheme s scheme rest) (hu : parseRaw esc viaRequest s = .ok u) :
    u.home = (scheme.map Char.toLower, if ['/', '/'] <+: rest.takeWhile (· ≠ '?') then
      ((rest.takeWhile (· ≠ '?')).drop 2).takeWhile (· ≠ '/') else []) := by
  have hlower : scheme.map Char.toLower ≠ [] := by simpa using h.ne_nil
  unfold parseRaw at hu
  rw [if_neg (by rw [h.text]; simp), if_neg h.ne_star, h.getscheme] at hu
  simp only [bind, Except.bind] at hu
  rw [← splitQuery_fst]
  split_ifs at hu with hroot hroot' hcolon hauth
  · obtain rfl := Except.ok.inj hu
    rw [if_neg]
    · rfl
    · intro hpre
      obtain ⟨t, ht⟩ := hpre
      exact hroot.1 (by rw [← ht]; rfl)
  · obtain ⟨_, -, hu⟩ := Except.bind_ok_iff.mp hu
    obtain ⟨_, -, hu⟩ := Except.bind_ok_iff.mp hu
    obtain rfl := Except.ok.inj hu
    rw [if_pos hauth.2]
    rfl
  · obtain ⟨_, -, hu⟩ := Except.bind_ok_iff.mp hu
    obtain rfl := Except.ok.inj hu
    rw [if_neg fun hpre => hauth ⟨.inl hlower, hpre⟩]
    rfl

theorem ok_of_mapError {ε ε' α : Type} {r : Except ε α} {f : ε → ε'} {a : α} (h : r.mapError f = .ok a) : r = .ok a := by
  cases r with
  | error e => cases h
  | ok b => rw [Except.ok.inj h]

/-- A URL with a scheme leads where its text says. -/
theorem home_of_parse (h : HasScheme s scheme rest) (hu : parse esc s = .ok u) :
    u.home = (scheme.map Char.toLower, authorityOf rest) := by
  unfold parse at hu
  obtain ⟨url, hurl, hu⟩ := Except.bind_ok_iff.mp hu
  have hhome := home_of_parseRaw h.cut (ok_of_mapError hurl)
  rw [authorityOf_takeWhile, ← hhome]
  split_ifs at hu
  · rw [Except.ok.inj hu]
  · obtain ⟨_, -, hu⟩ := Except.bind_ok_iff.mp hu
    rw [← Except.ok.inj hu]
    rfl

/-- A URL with a scheme has it in its text. -/
theorem hasScheme_of_parseRaw {viaRequest : Bool} (hu : parseRaw esc viaRequest s = .ok u) (hne : u.scheme ≠ []) :
    ∃ scheme rest, HasScheme s scheme rest := by
  unfold parseRaw at hu
  split_ifs at hu with hempty hstar
  · rw [← Except.ok.inj hu] at hne
    exact absurd rfl hne
  · obtain ⟨⟨scheme, rest⟩, hget, hu⟩ := Except.bind_ok_iff.mp hu
    refine ⟨scheme, rest, hasScheme_of_getscheme hget fun hnil => hne ?_⟩
    have hlower : u.scheme = scheme.map Char.toLower := by
      dsimp only at hu
      split_ifs at hu
      · rw [← Except.ok.inj hu]
      · obtain ⟨_, -, hu⟩ := Except.bind_ok_iff.mp hu
        obtain ⟨_, -, hu⟩ := Except.bind_ok_iff.mp hu
        rw [← Except.ok.inj hu]
      · obtain ⟨_, -, hu⟩ := Except.bind_ok_iff.mp hu
        rw [← Except.ok.inj hu]
    rw [hlower, hnil, List.map_nil]

theorem hasScheme_of_parseRequestURI (hu : parseRequestURI esc s = .ok u) (hne : u.scheme ≠ []) :
    ∃ scheme rest, HasScheme s scheme rest := hasScheme_of_parseRaw (ok_of_mapError hu) hne

/-- The scheme that is cut off with a fragment was there before. -/
theorem hasScheme_of_parse (hu : parse esc s = .ok u) (hne : u.scheme ≠ []) : ∃ scheme rest, HasScheme s scheme rest := by
  unfold parse at hu
  obtain ⟨url, hurl, hu⟩ := Except.bind_ok_iff.mp hu
  have hurlne : url.scheme ≠ [] := by
    split_ifs at hu
    · rwa [Except.ok.inj hu]
    · obtain ⟨_, -, hu⟩ := Except.bind_ok_iff.mp hu
      rw [← Except.ok.inj hu] at hne
      exact hne
  obtain ⟨scheme, rest, h⟩ := hasScheme_of_parseRaw (ok_of_mapError hurl) hurlne
  have hs : s = (cut '#' s).1 ++ s.dropWhile (· ≠ '#') := List.takeWhile_append_dropWhile.symm
  exact ⟨scheme, _, by rw [hs]; exact h.append _⟩

/-! ### Text behind a URL -/

theorem authorityOf_ne {a b : Char} {t : List Char} (h : ¬ (a = '/' ∧ b = '/')) : authorityOf (a :: b :: t) = [] := by
  unfold authorityOf
  split
  · next heq =>
    obtain ⟨ha, hbt⟩ := List.cons.inj heq
    exact absurd ⟨ha, (List.cons.inj hbt).1⟩ h
  · rfl

/-- Text put behind leaves the authority when there is a slash between, unless nothing but the slashes was there. -/
theorem authorityOf_append {w : List Char} (hbare : rest ∉ [[], ['/'], ['/', '/']])
    (hslash : rest.getLast? = some '/' ∨ w.head? = some '/') : authorityOf (rest ++ w) = authorityOf rest := by
  match rest with
  | [] => simp at hbare
  | [a] =>
    have ha : a ≠ '/' := by simpa using hbare
    cases w with
    | nil => rw [List.append_nil]
    | cons b w =>
      rw [List.singleton_append, authorityOf_ne fun h => ha h.1]
      simp only [authorityOf]
  | a :: b :: t =>
    by_cases hab : a = '/' ∧ b = '/'
    · obtain ⟨rfl, rfl⟩ := hab
      have ht : t ≠ [] := by simpa using hbare
      show (t ++ w).takeWhile authorityChar = t.takeWhile authorityChar
      rw [List.takeWhile_append]
      split_ifs with hall
      · -- the authority is open, so the slash is the first of what follows
        have heq : t.takeWhile authorityChar = t := (List.takeWhile_prefix _).eq_of_length hall
        have hopen : ∀ c ∈ t, authorityChar c = true := fun c hc => by
          rw [← heq] at hc
          exact List.mem_takeWhile_imp hc
        rcases hslash with hlast | hhead
        · have hlast' : t.getLast? = some '/' := by
            rw [List.getLast?_cons_cons, List.getLast?_cons_of_ne_nil ht] at hlast
            exact hlast
          exact absurd (hopen '/' (List.mem_of_getLast? hlast')) (by simp [authorityChar])
        · obtain ⟨w', rfl⟩ : ∃ w', w = '/' :: w' := List.head?_eq_some_iff.mp hhead
          rw [heq, List.takeWhile_cons_of_neg (by simp [authorityChar]), List.append_nil]
      · rfl
    · rw [List.cons_append, List.cons_append, authorityOf_ne hab, authorityOf_ne hab]

/-- A scheme with an authority behind it is a URL. -/
theorem parse_authority {host : List Char} (h : HasScheme s scheme ('/' :: '/' :: host))
    (hhost : ∀ c ∈ host, authorityChar c = true) (hesc : esc.authority host = .ok ()) (hpath : esc.path [] = .ok ()) :
    parse esc s = .ok ⟨scheme.map Char.toLower, [], host, [], false, [], []⟩ := by
  have hne (d : Char) (hd : authorityChar d = false) : ∀ c ∈ host, decide (c ≠ d) = true := fun c hc =>
    decide_eq_true fun hcd => absurd (hcd ▸ hhost c hc) (by rw [hd]; decide)
  have hslash := hne '/' (by decide)
  have hquery := hne '?' (by decide)
  have hfrag := hne '#' (by decide)
  have hcut := h.cut
  have htake : ('/' :: '/' :: host).takeWhile (· ≠ '#') = '/' :: '/' :: host := by
    simpa using List.takeWhile_eq_self_iff.mpr hfrag
  rw [htake] at hcut
  have hself : (cut '#' s).1 = s := by rw [hcut.text, ← h.text]
  have hdrop : s.dropWhile (· ≠ '#') = [] := by
    have hlen := congrArg List.length (List.takeWhile_append_dropWhile (p := fun c : Char => decide (c ≠ '#')) (l := s))
    rw [List.length_append] at hlen
    have htaken : (s.takeWhile (· ≠ '#')).length = s.length := congrArg List.length hself
    exact List.eq_nil_of_length_eq_zero (by omega)
  have hsplit : splitQuery ('/' :: '/' :: host) = ('/' :: '/' :: host, false, []) := by
    have hq : '?' ∉ '/' :: '/' :: host := by
      intro hmem
      simp only [List.mem_cons, Char.reduceEq, false_or] at hmem
      exact absurd (hquery _ hmem) (by decide)
    unfold splitQuery
    rw [if_neg fun hforce => hq (List.mem_of_getLast? hforce.1)]
    have hall : ∀ c ∈ '/' :: '/' :: host, decide (c ≠ '?') = true := fun c hc => decide_eq_true fun hcq => hq (hcq ▸ hc)
    unfold cut
    rw [List.takeWhile_eq_self_iff.mpr hall, List.dropWhile_eq_nil_iff.mpr hall]
    rfl
  have hraw : parseRaw esc false s = .ok ⟨scheme.map Char.toLower, [], host, [], false, [], []⟩ := by
    have hlower : scheme.map Char.toLower ≠ [] := by simpa using h.ne_nil
    unfold parseRaw
    rw [if_neg (by rw [h.text]; simp), if_neg h.ne_star, h.getscheme]
    simp only [bind, Except.bind, hsplit]
    rw [if_neg (fun hroot => hroot.1 rfl), if_neg (fun hroot => hroot.1 rfl), if_neg (fun hroot => hroot.1 rfl),
      if_pos ⟨.inl hlower, by simp⟩]
    simp only [List.drop_succ_cons, List.drop_zero]
    rw [List.takeWhile_eq_self_iff.mpr hslash, List.dropWhile_eq_nil_iff.mpr hslash, hesc, hpath]
  unfold parse
  show ((parseRaw esc false (cut '#' s).1).mapError _ >>= fun url => if (s.dropWhile (· ≠ '#')).tail = [] then _ else _) = _
  rw [hself, hraw, hdrop]
  rfl

end Url
