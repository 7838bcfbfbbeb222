/-
# The applications of hosts

`parseSeries` and `getAppsForHosts` of `hosts/apis/index.js`. A series key is
consumed by two regular expressions; of the second, all that can match at a
place is the text up to the next equals sign, and the text behind it up to
the next comma. An exception is none.

Key definitions: `parseSeries`, `getAppsForHosts`, `Series.key`.
Key theorems: `exists_parseTags`, `parseSeries_eq_some`.
-/
import Chronograf.Lib.Escapes
import Chronograf.Lib.Objects
import Chronograf.Lib.Unique
import Mathlib.Data.List.TakeWhile

namespace Chronograf
namespace Hosts

/-! ### Series keys -/

structure SeriesObj where
  measurement : String
  tags : Option (Props String)

/-- `\w` -/
def isWord (c : Char) : Bool := c.isAlphanum || c = '_'

/-- `/\w+/`: what it matches, and what is behind it. -/
def execIdent (s : List Char) : Option (List Char × List Char) :=
  let found := s.dropWhile fun c => !isWord c
  if found = [] then none else some (found.takeWhile isWord, found.dropWhile isWord)

/-- `/([^=]+)=([^,]+)/` at the beginning of a text. -/
def matchPair (s : List Char) : Option ((List Char × List Char) × List Char) :=
  let key := s.takeWhile (· ≠ '=')
  let rest := (s.dropWhile (· ≠ '=')).drop 1
  let value := rest.takeWhile (· ≠ ',')
  if key ≠ [] ∧ value ≠ [] then some ((key, value), rest.dropWhile (· ≠ ',')) else none

/-- The comma before it is taken if that leaves a match. -/
def matchTag (s : List Char) : Option ((List Char × List Char) × List Char) :=
  if s.head? = some ',' then (matchPair s.tail).or (matchPair s) else matchPair s

/-- `/,?([^=]+)=([^,]+)/` -/
def execTag : List Char → Option ((List Char × List Char) × List Char)
  | [] => none
  | c :: s => (matchTag (c :: s)).or (execTag s)

/-- `tags[key] = value`, where the prototype is no property. -/
def assign (tags : Props String) (key value : String) : Props String := if key = "__proto__" then tags else tags.set key value

def parseTag (s : List Char) (tags : Option (Props String)) : List Char × Option (Props String) :=
  match execTag s with
  | some ((key, value), rest) => (rest, some (assign (tags.getD Props.empty) (String.ofList key) (String.ofList value)))
  | none => ([], tags)

/-- The loop while there is something left. -/
def parseTags : ℕ → List Char → Option (Props String) → Option (Option (Props String))
  | _, [], tags => some tags
  | 0, _ :: _, _ => none
  | n + 1, c :: s, tags => parseTags n (parseTag (c :: s) tags).1 (parseTag (c :: s) tags).2

def parseSeries (series : List Char) : Option SeriesObj := do
  let match_ ← execIdent series
  let tags ← parseTags match_.2.length match_.2 none
  some ⟨String.ofList match_.1, tags⟩

/-! ### Hosts -/

structure Host where
  apps : Option (List (Option String))
  tags : Option (Props String)

structure AppLayout where
  measurement : String
  app : String

def measurementsToApps (appLayouts : List AppLayout) : Props String := Props.ofList (appLayouts.map fun m => (m.measurement, m.app))

def assignTags (target source : Props String) : Props String := source.entries.foldl (fun o e => o.set e.1 e.2) target

def Host.add (h : Host) (app : Option String) (tags : Props String) : Host :=
  ⟨some (uniqBy id (h.apps.getD [] ++ [app])), some (assignTags (h.tags.getD Props.empty) tags)⟩

def addSeries (apps : Props String) (newHosts : Props Host) (seriesObj : SeriesObj) : Props Host :=
  let host := (seriesObj.tags.bind fun tags => tags.get? "host").getD ""
  match newHosts.get? host with
  | none => newHosts
  | some h => newHosts.set host (h.add (apps.get? seriesObj.measurement) (seriesObj.tags.getD Props.empty))

def getAppsForHosts (hosts : Props Host) (appLayouts : List AppLayout) (allSeries : List (List Char)) : Option (Props Host) :=
  allSeries.foldlM (fun newHosts series => (parseSeries series).map (addSeries (measurementsToApps appLayouts) newHosts)) hosts

/-! ### What series are -/

/-- A series with its tags, none of which is empty. -/
structure Series where
  measurement : String
  tags : List (String × String)
  measurement_ne : measurement ≠ ""
  tags_ne_nil : tags ≠ []
  tag_ne : ∀ t ∈ tags, t.1 ≠ "" ∧ t.2 ≠ ""
  nodup : (tags.map Prod.fst).Nodup

def measurementEscape (c : Char) : Bool := c = ',' || c = ' '

def tagEscape (c : Char) : Bool := c = ',' || c = ' ' || c = '='

/-- Tags with equals signs, and a comma before each. -/
def tagsText (pairs : List (List Char × List Char)) : List Char := pairs.flatMap fun p => ',' :: (p.1 ++ '=' :: p.2)

def escapeTag (t : String × String) : List Char × List Char := (Escapes.escape tagEscape t.1.toList, Escapes.escape tagEscape t.2.toList)

/-- The series key. -/
def Series.key (s : Series) : List Char := Escapes.escape measurementEscape s.measurement.toList ++ tagsText (s.tags.map escapeTag)

/-! ### What the loop makes of a text -/

theorem length_matchPair {s rest : List Char} {p : List Char × List Char} (h : matchPair s = some (p, rest)) : rest.length < s.length := by
  rw [matchPair] at h
  split_ifs at h with hne
  obtain ⟨-, rfl⟩ := Prod.mk.inj (Option.some_inj.mp h)
  have hs : s ≠ [] := fun hnil => hne.1 (by rw [hnil]; rfl)
  have hdrop : (s.dropWhile (· ≠ '=')).length ≤ s.length := (List.dropWhile_sublist _).length_le
  have hrest : (((s.dropWhile (· ≠ '=')).drop 1).dropWhile (· ≠ ',')).length ≤ ((s.dropWhile (· ≠ '=')).drop 1).length :=
    (List.dropWhile_sublist _).length_le
  rw [List.length_drop] at hrest
  have hpos := List.length_pos_of_ne_nil hs
  omega

theorem of_matchPair {s rest : List Char} {p : List Char × List Char} (h : matchPair s = some (p, rest)) : '=' ∉ p.1 ∧ ',' ∉ p.2 := by
  rw [matchPair] at h
  split_ifs at h with hne
  obtain ⟨rfl, -⟩ := Prod.mk.inj (Option.some_inj.mp h)
  exact ⟨fun hmem => by simpa using List.mem_takeWhile_imp hmem, fun hmem => by simpa using List.mem_takeWhile_imp hmem⟩

/-- A match is one of the pair, at some place. -/
theorem of_execTag : ∀ {s rest : List Char} {p : List Char × List Char}, execTag s = some (p, rest) →
    rest.length < s.length ∧ '=' ∉ p.1 ∧ ',' ∉ p.2
  | [], _, _, h => absurd h nofun
  | c :: s, rest, p, h => by
    rw [execTag, matchTag] at h
    rcases Option.or_eq_some_iff.mp h with h | ⟨-, h⟩
    · split_ifs at h with hcomma
      · rcases Option.or_eq_some_iff.mp h with h | ⟨-, h⟩
        · exact ⟨(length_matchPair h).trans (Nat.lt_succ_self _), of_matchPair h⟩
        · exact ⟨length_matchPair h, of_matchPair h⟩
      · exact ⟨length_matchPair h, of_matchPair h⟩
    · obtain ⟨hlength, hp⟩ := of_execTag h
      exact ⟨hlength.trans (Nat.lt_succ_self _), hp⟩

theorem length_parseTag (c : Char) (s : List Char) (tags : Option (Props String)) : (parseTag (c :: s) tags).1.length ≤ s.length := by
  rw [parseTag]
  cases h : execTag (c :: s) with
  | none => exact Nat.zero_le _
  | some found => exact Nat.le_of_lt_succ (of_execTag h).1

/-- The loop ends. -/
theorem exists_parseTags : ∀ {n : ℕ} {s : List Char} (tags : Option (Props String)), s.length ≤ n → ∃ tags', parseTags n s tags = some tags'
  | _, [], tags, _ => ⟨tags, by rw [parseTags]⟩
  | 0, _ :: _, _, h => absurd h (Nat.not_succ_le_zero _)
  | n + 1, c :: s, tags, h => by
    rw [parseTags]
    exact exists_parseTags _ ((length_parseTag c s tags).trans (Nat.le_of_succ_le_succ h))

/-- There is an exception exactly where the key has no word character. -/
theorem parseSeries_eq_some (series : List Char) : (∃ o, parseSeries series = some o) ↔ ∃ c ∈ series, isWord c := by
  have hfound : (series.dropWhile fun c => !isWord c) = [] ↔ ∀ c ∈ series, ¬isWord c := by
    rw [List.dropWhile_eq_nil_iff]
    exact forall₂_congr fun c _ => by rw [Bool.not_eq_true', Bool.not_eq_true]
  constructor
  · rintro ⟨o, ho⟩
    by_contra hnone
    push Not at hnone
    have hempty : execIdent series = none := if_pos (hfound.mpr fun c hc hword => absurd hword (by simpa using hnone c hc))
    rw [parseSeries, hempty] at ho
    exact absurd ho nofun
  · rintro ⟨c, hc, hword⟩
    have hsome : execIdent series = some _ := if_neg fun hempty => hfound.mp hempty c hc hword
    obtain ⟨tags, htags⟩ := exists_parseTags none (Nat.le_refl ((series.dropWhile fun c => !isWord c).dropWhile isWord).length)
    exact ⟨_, by rw [parseSeries, hsome]; exact congrArg (Option.bind · _) htags⟩

end Hosts
end Chronograf
