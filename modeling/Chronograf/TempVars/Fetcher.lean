/-
# The cache of template queries

`CachingTemplateQueryFetcher` of `tempVars/utils/graph.ts`, one for all calls of
`hydrateTemplate`. A call sets the fetcher's `proxyUrl`, and either finds the
query in the cache or sends it; all this happens at once. The reply is parsed
and stored later, when other calls may have set the `proxyUrl` anew.

Key definitions: `Fetcher`, `State.call`, `State.reply`, `State.Sound`,
`State.Timely`.
Key theorem: `State.sound_iff`.
-/
import Chronograf.Lib.Runs
import Mathlib.Logic.Function.Basic

namespace Chronograf
namespace TempVars

variable {Data : Type}

/-- The response to a query, and where it was requested from. -/
structure Response (Data : Type) where
  source : String
  query : String
  data : Data

/-- The values parsed from a response. -/
structure Entry (Data : Type) where
  values : List String
  response : Response Data

structure Fetcher (Data : Type) where
  proxyUrl : String
  cache : String → Option (String → Option (Entry Data))

namespace Fetcher

variable (f : Fetcher Data)

/-- An empty `proxyUrl` is refused. -/
def setProxyUrl (proxyUrl : String) : Option (Fetcher Data) :=
  if proxyUrl = "" then none
  else some
    { proxyUrl
      cache := if f.cache proxyUrl = none then Function.update f.cache proxyUrl (some fun _ => none) else f.cache }

/-- The entry `cache[source][query]`. -/
def lookup (source query : String) : Option (Entry Data) := (f.cache source).bind fun queries => queries query

def cached (query : String) : Option (Entry Data) := f.lookup f.proxyUrl query

/-- Values are stored under the `proxyUrl` that the fetcher has now. -/
def store (query : String) (e : Entry Data) : Fetcher Data :=
  let queries := (f.cache f.proxyUrl).getD fun _ => none
  { f with cache := Function.update f.cache f.proxyUrl (some (Function.update queries query (some e))) }

variable {f}

theorem setProxyUrl_some {f' : Fetcher Data} {proxyUrl : String} (h : f.setProxyUrl proxyUrl = some f') :
    f'.proxyUrl = proxyUrl ∧ f'.lookup = f.lookup := by
  unfold setProxyUrl at h
  by_cases hempty : proxyUrl = ""
  · rw [if_pos hempty] at h
    cases h
  · rw [if_neg hempty] at h
    cases h
    refine ⟨rfl, ?_⟩
    funext source query
    by_cases hnone : f.cache proxyUrl = none
    · by_cases hsource : source = proxyUrl
      · subst hsource
        simp [lookup, hnone]
      · simp [lookup, hnone, hsource]
    · simp [lookup, hnone]

theorem lookup_store (source query query' : String) (e : Entry Data) :
    (f.store query e).lookup source query' =
      if source = f.proxyUrl ∧ query' = query then some e else f.lookup source query' := by
  unfold store lookup
  by_cases hsource : source = f.proxyUrl
  · subst hsource
    by_cases hquery : query' = query
    · simp [hquery]
    · cases hc : f.cache f.proxyUrl <;> simp [hquery]
  · simp [hsource]

end Fetcher

/-- How far a call has got. -/
inductive Status (Data : Type)
  | waiting (source : String)
  | resolved (values : Option (Entry Data))
  | rejected

/-- A call of `hydrateTemplate` and the query it renders, if its template has one. -/
structure Call (Data : Type) where
  proxyUrl : String
  query : Option String
  status : Status Data

structure State (Data : Type) where
  fetcher : Fetcher Data
  calls : List (Call Data)

/-- What happens next: a call is made, or one gets its reply, if not an error. -/
inductive Event (Data : Type)
  | call (proxyUrl : String) (query : Option String)
  | reply (call : ℕ) (answer : Option Data)

/-- The values in a reply to the query, if it is no error and can be parsed. -/
def parseAnswer (parseMetaQuery : String → Data → Option (List String)) (source query : String)
    (answer : Option Data) : Option (Entry Data) :=
  answer.bind fun data => (parseMetaQuery query data).map fun values => ⟨values, ⟨source, query, data⟩⟩

namespace State

def init : State Data := ⟨⟨"", fun _ => none⟩, []⟩

variable (parseMetaQuery : String → Data → Option (List String))

/-- The fetcher's part of a call, once its `proxyUrl` is set. -/
def fetchStatus (f : Fetcher Data) : Option String → Status Data
  | none => .resolved none
  | some query =>
    match f.cached query with
    | some e => .resolved (some e)
    | none => .waiting f.proxyUrl

/-- A call up to where it waits. -/
def call (s : State Data) (proxyUrl : String) (query : Option String) : State Data :=
  match s.fetcher.setProxyUrl proxyUrl with
  | none => { s with calls := s.calls ++ [⟨proxyUrl, query, .rejected⟩] }
  | some f => ⟨f, s.calls ++ [⟨proxyUrl, query, fetchStatus f query⟩]⟩

/-- The rest of the call `i`, when its reply is there. -/
def reply (s : State Data) (i : ℕ) (answer : Option Data) : State Data :=
  match s.calls[i]? with
  | some ⟨proxyUrl, some query, .waiting source⟩ =>
    match parseAnswer parseMetaQuery source query answer with
    | none => { s with calls := s.calls.set i ⟨proxyUrl, some query, .rejected⟩ }
    | some e => ⟨s.fetcher.store query e, s.calls.set i ⟨proxyUrl, some query, .resolved (some e)⟩⟩
  | _ => s

def step (s : State Data) : Event Data → State Data
  | .call proxyUrl query => s.call proxyUrl query
  | .reply i answer => s.reply parseMetaQuery i answer

/-! ### Sources -/

/-- The values were parsed from a response to `query` that was requested from `source`. -/
def FromSource (source query : String) (e : Entry Data) : Prop :=
  e.response.source = source ∧ e.response.query = query ∧ parseMetaQuery query e.response.data = some e.values

/-- Every entry of the cache is from the source that it stands under, and so are
the values that a call resolved to. -/
structure Sound (s : State Data) : Prop where
  cache : ∀ source query e, s.fetcher.lookup source query = some e → FromSource parseMetaQuery source query e
  calls : ∀ c ∈ s.calls, ∀ e, c.status = .resolved (some e) →
    ∃ query, c.query = some query ∧ FromSource parseMetaQuery c.proxyUrl query e

/-- When the reply to a call is stored, the fetcher's `proxyUrl` is the one of the call. -/
def Timely (s : State Data) : Event Data → Prop
  | .call _ _ => True
  | .reply i answer => ∀ proxyUrl query source e, s.calls[i]? = some ⟨proxyUrl, some query, .waiting source⟩ →
      parseAnswer parseMetaQuery source query answer = some e → s.fetcher.proxyUrl = proxyUrl

/-- A call waits for what it requested from its own source. -/
def Requested (s : State Data) : Prop :=
  ∀ c ∈ s.calls, ∀ source, c.status = .waiting source → source = c.proxyUrl

variable {parseMetaQuery} {s : State Data}

/-! ### One event -/

theorem parseAnswer_some {source query : String} {answer : Option Data} {e : Entry Data}
    (h : parseAnswer parseMetaQuery source query answer = some e) : FromSource parseMetaQuery source query e := by
  obtain ⟨data, -, hmap⟩ := Option.bind_eq_some_iff.mp h
  obtain ⟨values, hparse, rfl⟩ := Option.map_eq_some_iff.mp hmap
  exact ⟨rfl, rfl, hparse⟩

/-- What has been stored is from its source alone. -/
theorem fromSource_unique {source source' query : String} {e : Entry Data}
    (h : FromSource parseMetaQuery source query e) (h' : FromSource parseMetaQuery source' query e) :
    source = source' := h.1.symm.trans h'.1

theorem requested_step (hs : Requested s) (ev : Event Data) : Requested (step parseMetaQuery s ev) := by
  cases ev with
  | call proxyUrl query =>
    show Requested (s.call proxyUrl query)
    unfold call
    cases hf : s.fetcher.setProxyUrl proxyUrl with
    | none =>
      intro c hc source hstatus
      rcases List.mem_append.mp hc with hc | hc
      · exact hs c hc source hstatus
      · rw [List.mem_singleton.mp hc] at hstatus
        cases hstatus
    | some f =>
      intro c hc source hstatus
      rcases List.mem_append.mp hc with hc | hc
      · exact hs c hc source hstatus
      · rw [List.mem_singleton.mp hc] at hstatus ⊢
        have hsource : f.proxyUrl = source := by
          revert hstatus
          unfold fetchStatus
          split
          · exact nofun
          · split
            · exact nofun
            · exact fun h => Status.waiting.inj h
        rw [← hsource]
        exact (Fetcher.setProxyUrl_some hf).1
  | reply i answer =>
    show Requested (s.reply parseMetaQuery i answer)
    unfold reply
    split
    · split
      all_goals
        intro c hc source hstatus
        rcases List.mem_or_eq_of_mem_set hc with hc | rfl
        · exact hs c hc source hstatus
        · cases hstatus
    · exact hs

theorem sound_call (hs : Sound parseMetaQuery s) (proxyUrl : String) (query : Option String) :
    Sound parseMetaQuery (s.call proxyUrl query) := by
  unfold call
  cases hf : s.fetcher.setProxyUrl proxyUrl with
  | none =>
    refine ⟨hs.cache, fun c hc e hstatus => ?_⟩
    rcases List.mem_append.mp hc with hc | hc
    · exact hs.calls c hc e hstatus
    · rw [List.mem_singleton.mp hc] at hstatus
      cases hstatus
  | some f =>
    obtain ⟨hurl, hlookup⟩ := Fetcher.setProxyUrl_some hf
    refine ⟨fun source query e h => hs.cache source query e (hlookup ▸ h), fun c hc e hstatus => ?_⟩
    rcases List.mem_append.mp hc with hc | hc
    · exact hs.calls c hc e hstatus
    · rw [List.mem_singleton.mp hc] at hstatus ⊢
      cases query with
      | none => cases hstatus
      | some q =>
        refine ⟨q, rfl, ?_⟩
        cases hcached : f.cached q with
        | none => simp [fetchStatus, hcached] at hstatus
        | some e' =>
          obtain rfl : e' = e := by simpa [fetchStatus, hcached] using hstatus
          rw [Fetcher.cached, hurl, hlookup] at hcached
          exact hs.cache proxyUrl q e' hcached

theorem sound_reply_iff (hr : Requested s) (hs : Sound parseMetaQuery s) (i : ℕ) (answer : Option Data) :
    Sound parseMetaQuery (s.reply parseMetaQuery i answer) ↔ Timely parseMetaQuery s (.reply i answer) := by
  unfold reply
  split
  · rename_i proxyUrl query source hcall
    have hmem : (⟨proxyUrl, some query, .waiting source⟩ : Call Data) ∈ s.calls := List.mem_of_getElem? hcall
    obtain rfl : source = proxyUrl := hr _ hmem source rfl
    cases hparse : parseAnswer parseMetaQuery source query answer with
    | none =>
      refine iff_of_true ⟨hs.cache, fun c hc e hstatus => ?_⟩ ?_
      · rcases List.mem_or_eq_of_mem_set hc with hc | rfl
        · exact hs.calls c hc e hstatus
        · cases hstatus
      · intro proxyUrl' query' source' e hcall' hparse'
        rw [hcall] at hcall'
        cases hcall'
        rw [hparse] at hparse'
        cases hparse'
    | some e =>
      have hfrom := parseAnswer_some hparse
      constructor
      · intro hsound proxyUrl' query' source' e' hcall' hparse'
        rw [hcall] at hcall'
        cases hcall'
        have hstored : (s.fetcher.store query e).lookup s.fetcher.proxyUrl query = some e := by
          rw [Fetcher.lookup_store, if_pos ⟨rfl, rfl⟩]
        exact fromSource_unique (hsound.cache _ _ _ hstored) hfrom
      · intro htimely
        have hurl : s.fetcher.proxyUrl = source := htimely source query source e hcall hparse
        refine ⟨fun source' query' e' h => ?_, fun c hc e' hstatus => ?_⟩
        · rw [Fetcher.lookup_store] at h
          split_ifs at h with hnew
          · obtain ⟨rfl, rfl⟩ := hnew
            obtain rfl : e = e' := Option.some.inj h
            rw [hurl]
            exact hfrom
          · exact hs.cache source' query' e' h
        · rcases List.mem_or_eq_of_mem_set hc with hc | rfl
          · exact hs.calls c hc e' hstatus
          · obtain rfl : e = e' := Option.some.inj (Status.resolved.inj hstatus)
            exact ⟨query, rfl, hfrom⟩
  · rename_i hnone
    refine iff_of_true hs fun proxyUrl query source e hcall _ => ?_
    exact absurd hcall (hnone proxyUrl query source)

/-! ### Runs -/

def run (parseMetaQuery : String → Data → Option (List String)) (events : List (Event Data)) : State Data :=
  events.foldl (step parseMetaQuery) init

theorem sound_init : Sound parseMetaQuery (init : State Data) := ⟨nofun, nofun⟩

/-- No source gets the values of another one, after any part of a run, if and only
if every reply that is stored is stored while the fetcher has the `proxyUrl` of
its call. -/
theorem sound_iff (parseMetaQuery : String → Data → Option (List String)) (events : List (Event Data)) :
    (∀ pre, pre <+: events → Sound parseMetaQuery (run parseMetaQuery pre)) ↔
      ∀ pre ev, pre ++ [ev] <+: events → Timely parseMetaQuery (run parseMetaQuery pre) ev := by
  refine foldl_keeps_iff (I := Requested) (fun s ev hr => requested_step hr ev) ?_ (fun _ hc => by cases hc)
    sound_init events
  intro s ev hr hs
  cases ev with
  | call proxyUrl query => exact iff_of_true (sound_call hs proxyUrl query) trivial
  | reply i answer => exact sound_reply_iff hr hs i answer

/-- Two calls: the second sets its own source while the first waits, and a third
finds there what the first was sent. -/
theorem sources_mixed :
    ¬ ∀ events : List (Event (List String)),
        Sound (fun _ data => some data) (run (fun _ data => some data) events) := by
  intro h
  have hsound := h [.call "/sources/1/proxy" (some "SHOW DATABASES"), .call "/sources/2/proxy" (some "SHOW SERIES"),
    .reply 0 (some ["telegraf"]), .call "/sources/2/proxy" (some "SHOW DATABASES")]
  obtain ⟨query, hquery, hfrom⟩ := hsound.calls ⟨"/sources/2/proxy", some "SHOW DATABASES",
    .resolved (some ⟨["telegraf"], "/sources/1/proxy", "SHOW DATABASES", ["telegraf"]⟩)⟩ (List.mem_of_getElem? (i := 2) rfl) _ rfl
  exact absurd hfrom.1 (by decide)

end State

end TempVars
end Chronograf
