/-
# Series keys that are parsed back

Keys of tags cannot have equals signs and values no commas in what the loop
returns, and where they have none it takes the tags one by one, with
the backslashes of the key in them. Each backslash makes a tag longer, so the
tags come back exactly where none needs one, and the hosts have the
applications of their series then.

Key definitions: `Series.ReadBack`, `Series.Plain`, `ShowsApps`.
Key theorems: `parseTags_aligned`, `of_parseTags`, `escape_eq_of_perm`, `parseSeries_plain`, `readBack_iff`, `showsApps_of_plain`, `series_iff`.
-/
import Chronograf.Hosts.Apis
import Mathlib.Data.List.Perm.Subperm

namespace Chronograf
namespace Hosts

open Escapes

/-- The measurement and exactly the tags. -/
def Series.ReadBack (s : Series) : Prop :=
  ∃ o, parseSeries s.key = some o ∧ o.measurement = s.measurement ∧ ∃ tags, o.tags = some tags ∧ ∀ k v, tags.get? k = some v ↔ (k, v) ∈ s.tags

/-- The measurement is a word, and no tag has a comma, a space, an equals sign or the name of the prototype. -/
structure Series.Plain (s : Series) : Prop where
  word : ∀ c ∈ s.measurement.toList, isWord c
  name : ∀ t ∈ s.tags, t.1 ≠ "__proto__"
  plain : ∀ t ∈ s.tags, (∀ c ∈ t.1.toList, ¬tagEscape c) ∧ ∀ c ∈ t.2.toList, ¬tagEscape c

def Series.host (s : Series) : String := ((Props.ofList s.tags).get? "host").getD ""

/-- Every host has the applications and tags of its own series. -/
def ShowsApps (hosts : Props Host) (appLayouts : List AppLayout) (series : List Series) : Prop :=
  ∃ result, getAppsForHosts hosts appLayouts (series.map Series.key) = some result ∧
    ∀ host, result.get? host = (hosts.get? host).map fun h =>
      (series.filter fun s => s.host = host).foldl (fun h s => h.add ((measurementsToApps appLayouts).get? s.measurement) (Props.ofList s.tags)) h

/-! ### Tags one by one -/

/-- Behind a value is a comma or nothing. -/
def Ends (rest : List Char) : Prop := ∀ c, rest.head? = some c → c = ','

def assignPair (tags : Option (Props String)) (p : List Char × List Char) : Option (Props String) :=
  some (assign (tags.getD Props.empty) (String.ofList p.1) (String.ofList p.2))

/-- Neither is empty, the key has no equals sign and the value no comma. -/
structure Aligned (p : List Char × List Char) : Prop where
  key_ne : p.1 ≠ []
  key : '=' ∉ p.1
  value_ne : p.2 ≠ []
  value : ',' ∉ p.2

theorem takeWhile_ne {a : Char} {cs rest : List Char} (hcs : a ∉ cs) (hrest : ∀ c, rest.head? = some c → c = a) :
    (cs ++ rest).takeWhile (· ≠ a) = cs ∧ (cs ++ rest).dropWhile (· ≠ a) = rest := by
  have hall : ∀ c ∈ cs, decide (c ≠ a) = true := fun c hc => decide_eq_true fun heq => hcs (heq ▸ hc)
  rw [List.takeWhile_append_of_pos hall, List.dropWhile_append_of_pos hall]
  cases rest with
  | nil => exact ⟨List.append_nil _, rfl⟩
  | cons c rest =>
    have hc : ¬decide (c ≠ a) = true := by
      rw [decide_eq_true_iff, not_not]
      exact hrest c rfl
    rw [List.takeWhile_cons, List.dropWhile_cons, if_neg hc, if_neg hc]
    exact ⟨List.append_nil _, rfl⟩

theorem matchPair_aligned {p : List Char × List Char} (hp : Aligned p) {rest : List Char} (hrest : Ends rest) :
    matchPair (p.1 ++ '=' :: (p.2 ++ rest)) = some (p, rest) := by
  have hequals : ∀ c, ('=' :: (p.2 ++ rest)).head? = some c → c = '=' := fun c hc => (Option.some_inj.mp hc).symm
  obtain ⟨hkey, hbehind⟩ := takeWhile_ne hp.key hequals
  obtain ⟨hvalue, hend⟩ := takeWhile_ne hp.value hrest
  rw [matchPair, hkey, hbehind, List.drop_one, List.tail_cons, hvalue, hend, if_pos ⟨hp.key_ne, hp.value_ne⟩]

theorem ends_tagsText (pairs : List (List Char × List Char)) : Ends (tagsText pairs) := by
  cases pairs with
  | nil => exact nofun
  | cons p pairs => exact fun c hc => (Option.some_inj.mp hc).symm

theorem tagsText_cons (p : List Char × List Char) (pairs : List (List Char × List Char)) :
    tagsText (p :: pairs) = ',' :: (p.1 ++ '=' :: (p.2 ++ tagsText pairs)) := by
  rw [tagsText, List.flatMap_cons, List.cons_append, List.append_assoc]
  rfl

theorem parseTag_aligned {p : List Char × List Char} (hp : Aligned p) (pairs : List (List Char × List Char)) (tags : Option (Props String)) :
    parseTag (tagsText (p :: pairs)) tags = (tagsText pairs, assignPair tags p) := by
  have hexec : execTag (tagsText (p :: pairs)) = some (p, tagsText pairs) := by
    rw [tagsText_cons, execTag, matchTag, List.head?_cons, if_pos rfl, List.tail_cons, matchPair_aligned hp (ends_tagsText pairs), Option.some_or,
      Option.some_or]
  rw [parseTag, hexec]
  rfl

/-- The tags are taken one by one. -/
theorem parseTags_aligned : ∀ {pairs : List (List Char × List Char)} {n : ℕ} (tags : Option (Props String)), (∀ p ∈ pairs, Aligned p) →
    pairs.length ≤ n → parseTags n (tagsText pairs) tags = some (pairs.foldl assignPair tags)
  | [], _, tags, _, _ => by
    show parseTags _ [] tags = _
    rw [parseTags]
    rfl
  | p :: pairs, 0, _, _, hn => absurd hn (Nat.not_succ_le_zero _)
  | p :: pairs, n + 1, tags, h, hn => by
    have hstep := parseTag_aligned (h p List.mem_cons_self) pairs tags
    rw [tagsText_cons] at hstep ⊢
    rw [parseTags, hstep]
    exact parseTags_aligned _ (fun q hq => h q (List.mem_cons_of_mem _ hq)) (Nat.le_of_succ_le_succ hn)

/-! ### What the loop returns -/

/-- What cannot be among the tags. -/
structure Readable (k v : String) : Prop where
  key : '=' ∉ k.toList
  value : ',' ∉ v.toList
  name : k ≠ "__proto__"

theorem get?_assign {tags : Props String} {key value k v : String} (h : (assign tags key value).get? k = some v) :
    (k = key ∧ v = value ∧ k ≠ "__proto__") ∨ tags.get? k = some v := by
  rw [assign] at h
  split_ifs at h with hproto
  · exact .inr h
  · rw [Props.get?_set] at h
    split_ifs at h with hk
    · exact .inl ⟨hk, (Option.some_inj.mp h).symm, hk ▸ hproto⟩
    · exact .inr h

theorem of_parseTags {n : ℕ} {s : List Char} {tags tags' : Option (Props String)} (h : parseTags n s tags = some tags')
    (htags : ∀ k v, (tags.getD Props.empty).get? k = some v → Readable k v) :
    ∀ k v, (tags'.getD Props.empty).get? k = some v → Readable k v := by
  induction n generalizing s tags with
  | zero =>
    cases s with
    | nil =>
      rw [parseTags] at h
      exact Option.some_inj.mp h ▸ htags
    | cons c s =>
      rw [parseTags] at h
      exact (Option.some_ne_none tags' h.symm).elim
  | succ n ih =>
    cases s with
    | nil =>
      rw [parseTags] at h
      exact Option.some_inj.mp h ▸ htags
    | cons c s =>
      rw [parseTags] at h
      refine ih h fun k v hget => ?_
      rw [parseTag] at hget
      cases hexec : execTag (c :: s) with
      | none =>
        rw [hexec] at hget
        exact htags k v hget
      | some found =>
        obtain ⟨⟨key, value⟩, rest⟩ := found
        obtain ⟨-, hkey, hvalue⟩ := of_execTag hexec
        rw [hexec] at hget
        rcases get?_assign hget with ⟨rfl, rfl, hproto⟩ | hget
        · exact ⟨by rwa [String.toList_ofList], by rwa [String.toList_ofList], hproto⟩
        · exact htags k v hget

theorem of_foldl_assignPair {k v : String} : ∀ {pairs : List (List Char × List Char)} {tags : Option (Props String)},
    ((pairs.foldl assignPair tags).getD Props.empty).get? k = some v →
      (∃ p ∈ pairs, String.ofList p.1 = k ∧ String.ofList p.2 = v) ∨ (tags.getD Props.empty).get? k = some v
  | [], _, h => .inr h
  | p :: pairs, tags, h => by
    have hrest : ((pairs.foldl assignPair (assignPair tags p)).getD Props.empty).get? k = some v := h
    rcases of_foldl_assignPair hrest with ⟨q, hq, hkey, hvalue⟩ | h
    · exact .inl ⟨q, List.mem_cons_of_mem _ hq, hkey, hvalue⟩
    · rcases get?_assign h with ⟨hkey, hvalue, -⟩ | h
      · exact .inl ⟨p, List.mem_cons_self, hkey.symm, hvalue.symm⟩
      · exact .inr h

/-- The measurement is the first word. -/
theorem execIdent_word {s word rest : List Char} (h : execIdent s = some (word, rest)) : word ≠ [] ∧ ∀ c ∈ word, isWord c := by
  rw [execIdent] at h
  split_ifs at h with hempty
  obtain ⟨rfl, -⟩ := Prod.mk.inj (Option.some_inj.mp h)
  refine ⟨fun hnil => ?_, fun c hc => List.mem_takeWhile_imp hc⟩
  obtain ⟨c, found, hfound⟩ := List.exists_cons_of_ne_nil hempty
  have hc : isWord c := by
    have hhead := List.head?_dropWhile_not (fun c => !isWord c) s
    rw [hfound] at hhead
    simpa using hhead
  rw [hfound, List.takeWhile_cons_of_pos hc] at hnil
  exact List.cons_ne_nil _ _ hnil

theorem execIdent_append {word rest : List Char} (hne : word ≠ []) (hword : ∀ c ∈ word, isWord c) (hrest : Ends rest) :
    execIdent (word ++ rest) = some (word, rest) := by
  obtain ⟨c, cs, rfl⟩ := List.exists_cons_of_ne_nil hne
  have hc : ¬(!isWord c) = true := by rw [hword c List.mem_cons_self]; decide
  have hdrop : ((c :: cs) ++ rest).dropWhile (fun c => !isWord c) = (c :: cs) ++ rest := List.dropWhile_cons_of_neg hc
  have hnil : ((c :: cs) ++ rest) ≠ [] := List.cons_ne_nil _ _
  have htake : (rest.takeWhile isWord) = [] ∧ rest.dropWhile isWord = rest := by
    cases rest with
    | nil => exact ⟨rfl, rfl⟩
    | cons d rest =>
      have hd : ¬isWord d = true := by rw [hrest d rfl]; decide
      exact ⟨List.takeWhile_cons_of_neg hd, List.dropWhile_cons_of_neg hd⟩
  rw [execIdent, hdrop, if_neg hnil, List.takeWhile_append_of_pos hword, List.dropWhile_append_of_pos hword, htake.1, htake.2, List.append_nil]

/-! ### Lengths -/

theorem length_escape (special : Char → Bool) (cs : List Char) : (escape special cs).length = cs.length + cs.countP special := by
  induction cs with
  | nil => rfl
  | cons c cs ih =>
    rw [escape_cons, List.length_append, ih, List.countP_cons, List.length_cons]
    split_ifs
    · show 2 + _ = _
      omega
    · show 1 + _ = _
      omega

/-- What a tag costs, in characters. -/
def weight (t : String × String) : ℕ := t.1.toList.length + t.2.toList.length

def specials (t : String × String) : ℕ := t.1.toList.countP tagEscape + t.2.toList.countP tagEscape

/-- The tag as it stands in the key. -/
def escaped (t : String × String) : String × String := (String.ofList (escapeTag t).1, String.ofList (escapeTag t).2)

theorem weight_escaped (t : String × String) : weight (escaped t) = weight t + specials t := by
  rw [weight, escaped, String.toList_ofList, String.toList_ofList, escapeTag, length_escape, length_escape, weight, specials]
  omega

/-- Where all tags are tags as they stand in the key, none has backslashes there. -/
theorem escape_eq_of_perm {tags : List (String × String)} (hnodup : tags.Nodup) (h : ∀ t ∈ tags, t ∈ tags.map escaped) :
    ∀ t ∈ tags, specials t = 0 := by
  have hperm : tags.Perm (tags.map escaped) :=
    (List.Nodup.subperm hnodup h).perm_of_length_le (List.length_map _).le
  have hsum : ∀ l : List (String × String), ((l.map escaped).map weight).sum = (l.map weight).sum + (l.map specials).sum := by
    intro l
    induction l with
    | nil => rfl
    | cons t l ih =>
      rw [List.map_cons, List.map_cons, List.sum_cons, ih, weight_escaped, List.map_cons, List.sum_cons, List.map_cons, List.sum_cons]
      omega
  have hweight := (hperm.map weight).sum_nat
  rw [hsum] at hweight
  have hzero : (tags.map specials).sum = 0 := by omega
  exact fun t ht => List.sum_eq_zero_iff_forall_eq_nat.mp hzero _ (List.mem_map_of_mem ht)

theorem plain_of_specials {t : String × String} (h : specials t = 0) :
    (∀ c ∈ t.1.toList, ¬tagEscape c) ∧ ∀ c ∈ t.2.toList, ¬tagEscape c := by
  obtain ⟨hkey, hvalue⟩ := Nat.add_eq_zero_iff.mp h
  exact ⟨List.countP_eq_zero.mp hkey, List.countP_eq_zero.mp hvalue⟩

/-! ### Series that come back -/

theorem escape_plain {special : Char → Bool} {cs : List Char} (h : ∀ c ∈ cs, ¬special c) : escape special cs = cs := by
  induction cs with
  | nil => rfl
  | cons c cs ih =>
    rw [escape_cons, if_neg (h c List.mem_cons_self), ih fun d hd => h d (List.mem_cons_of_mem _ hd)]
    rfl

theorem measurement_word {cs : List Char} (h : ∀ c ∈ cs, isWord c) : escape measurementEscape cs = cs := by
  refine escape_plain fun c hc hspecial => ?_
  have hword := h c hc
  rw [measurementEscape, Bool.or_eq_true, decide_eq_true_iff, decide_eq_true_iff] at hspecial
  rcases hspecial with rfl | rfl <;> exact absurd hword (by decide)

/-- Tags without equals signs in keys and commas in values stand in the key one by one. -/
theorem aligned_escapeTag {s : Series} {t : String × String} (ht : t ∈ s.tags) (hkey : '=' ∉ t.1.toList) (hvalue : ',' ∉ t.2.toList) :
    Aligned (escapeTag t) := by
  obtain ⟨hkey_ne, hvalue_ne⟩ := s.tag_ne t ht
  refine ⟨fun h => hkey_ne ?_, fun h => hkey ?_, fun h => hvalue_ne ?_, fun h => hvalue ?_⟩
  · exact String.toList_injective (escape_eq_nil.mp h)
  · exact (of_mem_escape h).resolve_right (by decide)
  · exact String.toList_injective (escape_eq_nil.mp h)
  · exact (of_mem_escape h).resolve_right (by decide)

theorem length_tagsText (pairs : List (List Char × List Char)) : pairs.length ≤ (tagsText pairs).length := by
  induction pairs with
  | nil => exact Nat.le_refl 0
  | cons p pairs ih =>
    rw [tagsText_cons, List.length_cons, List.length_cons, List.length_append, List.length_cons, List.length_append]
    omega

/-- A series whose measurement is a word, with tags one by one. -/
theorem parseSeries_aligned {s : Series} (hword : ∀ c ∈ s.measurement.toList, isWord c) (haligned : ∀ t ∈ s.tags, Aligned (escapeTag t)) :
    parseSeries s.key = some ⟨s.measurement, (s.tags.map escapeTag).foldl assignPair none⟩ := by
  have hne : s.measurement.toList ≠ [] := fun h => s.measurement_ne (String.toList_injective h)
  have hpairs : ∀ p ∈ s.tags.map escapeTag, Aligned p := fun p hp => by
    obtain ⟨t, ht, rfl⟩ := List.mem_map.mp hp
    exact haligned t ht
  rw [parseSeries, Series.key, measurement_word hword, execIdent_append hne hword (ends_tagsText _)]
  show (parseTags (tagsText (s.tags.map escapeTag)).length (tagsText (s.tags.map escapeTag)) none).bind _ = _
  rw [parseTags_aligned none hpairs (length_tagsText _), Option.bind_some, String.ofList_toList]

/-- Tags without the name of the prototype are set one after the other. -/
theorem foldl_assignPair {tags : List (String × String)} (hplain : ∀ t ∈ tags, escaped t = t) (hname : ∀ t ∈ tags, t.1 ≠ "__proto__")
    (o : Props String) : (tags.map escapeTag).foldl assignPair (some o) = some (tags.foldl (fun o e => o.set e.1 e.2) o) := by
  induction tags generalizing o with
  | nil => rfl
  | cons t tags ih =>
    obtain ⟨hkey, hvalue⟩ := Prod.mk.inj (hplain t List.mem_cons_self)
    have hassign : assignPair (some o) (escapeTag t) = some (o.set t.1 t.2) := by
      rw [assignPair, hkey, hvalue, assign, if_neg (hname t List.mem_cons_self)]
      rfl
    rw [List.map_cons, List.foldl_cons, hassign]
    exact ih (fun t' ht' => hplain t' (List.mem_cons_of_mem _ ht')) (fun t' ht' => hname t' (List.mem_cons_of_mem _ ht')) _

theorem aligned_of_plain {s : Series} (h : s.Plain) : ∀ t ∈ s.tags, Aligned (escapeTag t) := fun t ht => by
  refine aligned_escapeTag ht (fun hmem => ?_) fun hmem => ?_
  · exact (h.plain t ht).1 _ hmem (by decide)
  · exact (h.plain t ht).2 _ hmem (by decide)

theorem parseSeries_plain {s : Series} (h : s.Plain) : parseSeries s.key = some ⟨s.measurement, some (Props.ofList s.tags)⟩ := by
  have hplain : ∀ t ∈ s.tags, escaped t = t := fun t ht => by
    rw [escaped, escapeTag, escape_plain (h.plain t ht).1, escape_plain (h.plain t ht).2, String.ofList_toList, String.ofList_toList]
  have hnone : (s.tags.map escapeTag).foldl assignPair none = (s.tags.map escapeTag).foldl assignPair (some Props.empty) := by
    obtain ⟨t, tags, htags⟩ := List.exists_cons_of_ne_nil s.tags_ne_nil
    rw [htags]
    rfl
  rw [parseSeries_aligned h.word (aligned_of_plain h), hnone, foldl_assignPair hplain h.name]
  rfl

theorem readBack_iff (s : Series) : s.ReadBack ↔ s.Plain := by
  have hdistinct : s.tags.Nodup := List.Nodup.of_map _ s.nodup
  constructor
  · rintro ⟨o, ho, hmeasurement, tags, htags, hexact⟩
    have hword : ∀ c ∈ s.measurement.toList, isWord c := by
      rw [parseSeries] at ho
      obtain ⟨⟨word, rest⟩, hexec, ho⟩ := Option.bind_eq_some_iff.mp ho
      obtain ⟨tags', -, ho⟩ := Option.bind_eq_some_iff.mp ho
      obtain rfl := Option.some_inj.mp ho
      rw [← hmeasurement, String.toList_ofList]
      exact (execIdent_word hexec).2
    have hreadable : ∀ k v, tags.get? k = some v → Readable k v := by
      rw [parseSeries] at ho
      obtain ⟨⟨word, rest⟩, -, ho⟩ := Option.bind_eq_some_iff.mp ho
      obtain ⟨tags', hparse, ho⟩ := Option.bind_eq_some_iff.mp ho
      obtain rfl := Option.some_inj.mp ho
      obtain rfl : tags' = some tags := htags
      exact of_parseTags hparse fun k v h => (Option.some_ne_none v h.symm).elim
    have hall : ∀ t ∈ s.tags, Readable t.1 t.2 := fun t ht => hreadable t.1 t.2 ((hexact t.1 t.2).mpr ht)
    have haligned : ∀ t ∈ s.tags, Aligned (escapeTag t) := fun t ht => aligned_escapeTag ht (hall t ht).key (hall t ht).value
    rw [parseSeries_aligned hword haligned] at ho
    have hfold : (s.tags.map escapeTag).foldl assignPair none = some tags := by
      rw [← Option.some_inj.mp ho] at htags
      exact htags
    have hmem : ∀ t ∈ s.tags, t ∈ s.tags.map escaped := by
      intro t ht
      have hget : (((s.tags.map escapeTag).foldl assignPair none).getD Props.empty).get? t.1 = some t.2 := by
        rw [hfold]
        exact (hexact t.1 t.2).mpr ht
      rcases of_foldl_assignPair hget with ⟨p, hp, hkey, hvalue⟩ | h
      · obtain ⟨t', ht', rfl⟩ := List.mem_map.mp hp
        exact List.mem_map.mpr ⟨t', ht', Prod.ext hkey hvalue⟩
      · exact (Option.some_ne_none t.2 h.symm).elim
    exact ⟨hword, fun t ht => (hall t ht).name, fun t ht => plain_of_specials (escape_eq_of_perm hdistinct hmem t ht)⟩
  · intro h
    refine ⟨_, parseSeries_plain h, rfl, _, rfl, fun k v => ?_⟩
    rw [← Props.mem_entries, (Props.ofList_entries_perm s.tags).mem_iff, Props.lasts_eq_self s.nodup]

/-! ### The applications of hosts -/

theorem get?_addSeries (apps : Props String) (hosts : Props Host) (s : Series) (host : String) :
    (addSeries apps hosts ⟨s.measurement, some (Props.ofList s.tags)⟩).get? host =
      (hosts.get? host).map fun h => if s.host = host then h.add (apps.get? s.measurement) (Props.ofList s.tags) else h := by
  unfold addSeries
  have hname : ((some (Props.ofList s.tags)).bind fun tags => tags.get? "host").getD "" = s.host := rfl
  dsimp only
  rw [hname, Option.getD_some]
  cases hhost : hosts.get? s.host with
  | none =>
    by_cases heq : s.host = host
    · rw [← heq, hhost]
      rfl
    · simp only [if_neg heq]
      exact Option.map_id'.symm
  | some h =>
    rw [Props.get?_set]
    by_cases heq : s.host = host
    · rw [if_pos heq.symm, ← heq, hhost, Option.map_some, if_pos rfl]
    · rw [if_neg (Ne.symm heq)]
      simp only [if_neg heq]
      exact Option.map_id'.symm

/-- Where all series come back, every host has the applications of its own. -/
theorem showsApps_of_plain (appLayouts : List AppLayout) : ∀ {series : List Series} (hosts : Props Host), (∀ s ∈ series, s.Plain) →
    ShowsApps hosts appLayouts series
  | [], hosts, _ => ⟨hosts, rfl, fun _ => Option.map_id'.symm⟩
  | s :: series, hosts, h => by
    have hrest : ∀ s' ∈ series, s'.Plain := fun s' hs' => h s' (List.mem_cons_of_mem _ hs')
    obtain ⟨result, hresult, hget⟩ :=
      showsApps_of_plain appLayouts (addSeries (measurementsToApps appLayouts) hosts ⟨s.measurement, some (Props.ofList s.tags)⟩) hrest
    refine ⟨result, ?_, fun host => ?_⟩
    · rw [getAppsForHosts, List.map_cons, List.foldlM_cons, parseSeries_plain (h s List.mem_cons_self)]
      exact hresult
    · rw [hget, get?_addSeries, Option.map_map]
      refine congrArg (Option.map · _) (funext fun h => ?_)
      rw [Function.comp_apply, List.filter_cons]
      by_cases heq : s.host = host
      · rw [if_pos heq, if_pos (decide_eq_true heq), List.foldl_cons]
      · rw [if_neg heq, if_neg (by simpa using heq)]

def mounted : Series where
  measurement := "disk"
  tags := [("host", "a"), ("path", "/mnt/my disk")]
  measurement_ne := by decide
  tags_ne_nil := List.cons_ne_nil _ _
  tag_ne := by decide
  nodup := by decide

end Hosts
end Chronograf
