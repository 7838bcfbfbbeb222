/-
# Which guarded routes get their principal

Every route with a guard is `/chronograf/v1` or `/chronograf/v2` and names below it,
of which each parameter follows a fixed one. So no value of a parameter, not even
`..`, leads out of that root when the path is cleaned: the request goes through
`AuthorizedToken` exactly if the root is that of `v1` and the names below it do not
take each other back. Nobody is authorized on the other guarded routes.

Key definitions: `Grounded`, `Route.Tidy`, `Cancels`, `Reaches`.
Key theorems: `behindToken_iff`, `reaches_iff`, `guarded_iff`.
-/
import Chronograf.Server.Authorization
import Chronograf.Server.Routes

namespace Chronograf
namespace Server

open Paths

/-! ### Parameters that follow fixed names -/

theorem matchNames_cons {part name : List Char} {parts rest : List (List Char)}
    (h : matchNames (part :: parts) (name :: rest)) : (isParam part ∨ part = name) ∧ matchNames parts rest := by
  cases parts with
  | nil =>
    cases rest with
    | nil =>
      rw [matchNames] at h
      split at h
      · rename_i hparam
        exact ⟨.inl hparam, rfl⟩
      · exact ⟨.inr (by simpa using h), rfl⟩
    | cons w ws => simp [matchNames] at h
  | cons q qs =>
    rw [matchNames] at h
    · simpa using h
    · simp

theorem matchNames_length : ∀ {parts ns : List (List Char)}, matchNames parts ns → parts.length = ns.length
  | [], [], _ => rfl
  | [], _ :: _, h => by cases h
  | part :: parts, [], h => by cases parts <;> cases h
  | _ :: _, _ :: _, h => congrArg (· + 1) (matchNames_length (matchNames_cons h).2)

/-- The fixed names that a pattern begins with are those of the path. -/
theorem matchNames_append {fixed : List (List Char)} (hfixed : ∀ part ∈ fixed, ¬ isParam part)
    {parts ns : List (List Char)} (h : matchNames (fixed ++ parts) ns) :
    ∃ vals, ns = fixed ++ vals ∧ matchNames parts vals := by
  induction fixed generalizing ns with
  | nil => exact ⟨ns, rfl, h⟩
  | cons part fixed ih =>
    cases ns with
    | nil => cases matchNames_length h
    | cons n ns =>
      obtain ⟨hpart, hrest⟩ := matchNames_cons h
      obtain ⟨vals, rfl, hvals⟩ := ih (fun q hq => hfixed q (List.mem_cons_of_mem _ hq)) hrest
      obtain rfl : part = n := hpart.resolve_left (hfixed part (List.mem_cons_self ..))
      exact ⟨vals, rfl, hvals⟩

/-- Each parameter follows a fixed name; `fixed` if the first name does. -/
def Grounded : Bool → List (List Char) → Bool
  | _, [] => true
  | fixed, part :: parts => if isParam part then fixed && Grounded false parts else Plain part && Grounded true parts

/-- A name that is entered below a path takes nothing of what comes before. -/
theorem enter_append {p : List (List Char)} {name : List Char} (h : p ≠ [] ∨ name ≠ ['.', '.'])
    (root : List (List Char)) : enter (root ++ p) name = root ++ enter p name := by
  unfold enter
  split_ifs with hblank hdots
  · rfl
  · exact List.dropLast_append_of_ne_nil (h.resolve_right (not_not.mpr hdots))
  · rw [List.append_assoc]

/-- What is matched leads nowhere above where it begins. -/
theorem foldl_enter_grounded : ∀ {parts vals : List (List Char)} {fixed : Bool} {p : List (List Char)},
    Grounded fixed parts → matchNames parts vals → (fixed → p ≠ []) →
    ∀ root : List (List Char), vals.foldl enter (root ++ p) = root ++ vals.foldl enter p
  | [], [], _, _, _, _, _, _ => rfl
  | [], _ :: _, _, _, _, hmatch, _, _ => by cases hmatch
  | part :: parts, [], _, _, _, hmatch, _, _ => by cases matchNames_length hmatch
  | part :: parts, v :: vals, fixed, p, hgrounded, hmatch, hp, root => by
    obtain ⟨hpart, hrest⟩ := matchNames_cons hmatch
    rw [Grounded] at hgrounded
    rw [List.foldl_cons, List.foldl_cons]
    by_cases hparam : isParam part
    · rw [if_pos hparam, Bool.and_eq_true_iff] at hgrounded
      rw [enter_append (.inl (hp hgrounded.1))]
      exact foldl_enter_grounded hgrounded.2 hrest (by simp) root
    · rw [if_neg hparam, Bool.and_eq_true_iff] at hgrounded
      obtain rfl := hpart.resolve_left hparam
      have hplain : Plain part := by simpa using hgrounded.1
      rw [enter_append (.inr hplain.2.2.2)]
      exact foldl_enter_grounded hgrounded.2 hrest (fun _ => by simp [enter_plain hplain]) root

/-! ### The table -/

inductive Version
  | v1
  | v2
  deriving DecidableEq

def Version.name : Version → List Char
  | .v1 => ['v', '1']
  | .v2 => ['v', '2']

/-- The first name in the path of a route of the API. -/
def apiName : List Char := ['c', 'h', 'r', 'o', 'n', 'o', 'g', 'r', 'a', 'f']

/-- The version, and the names below it, of a path of the API. -/
def below (path : List Char) : Option (Version × List (List Char)) :=
  match names path with
  | [] :: api :: version :: parts =>
    if api ≠ apiName then none
    else if version = ['v', '1'] then some (.v1, parts) else if version = ['v', '2'] then some (.v2, parts) else none
  | _ => none

def Route.below (r : Route) : Option (Version × List (List Char)) := Server.below r.path.toList

/-- Each parameter follows a fixed name below the version, and what asks for the
principal itself is `me`. -/
def tidy (guard : Guard) (path : List Char) : Bool :=
  match below path with
  | some (version, part :: parts) =>
    Grounded false (part :: parts) && (guard ≠ .principal || version = .v1 && part :: parts = [['m', 'e']])
  | _ => false

theorem tidy_cons {method : Method} {path : String} {text : List Char} {guard : Guard} {rs : List Route}
    (hpath : path = String.ofList text) (htext : tidy guard text) (hrs : ∀ r ∈ rs, tidy r.guard r.path.toList) :
    ∀ r ∈ ⟨method, path, guard⟩ :: rs, tidy r.guard r.path.toList := by
  intro r hr
  rcases List.mem_cons.mp hr with rfl | hr
  · rw [hpath, String.toList_ofList]
    exact htext
  · exact hrs r hr

theorem apiRoutes_tidy : ∀ r ∈ apiRoutes, tidy r.guard r.path.toList := by
  unfold apiRoutes
  -- the text of each path is given by its characters
  repeat refine tidy_cons rfl rfl ?_
  exact fun r hr => absurd hr List.not_mem_nil

variable {r : Route} {version : Version} {parts : List (List Char)}

theorem below_of_mem (h : r ∈ apiRoutes) : ∃ version parts, r.below = some (version, parts) ∧ parts ≠ [] ∧
    Grounded false parts ∧ (r.guard = .principal → version = .v1 ∧ parts = [['m', 'e']]) := by
  have htidy := apiRoutes_tidy r h
  unfold tidy at htidy
  split at htidy
  · rename_i version part parts hbelow
    rw [Bool.and_eq_true] at htidy
    refine ⟨version, part :: parts, hbelow, by simp, htidy.1, fun hguard => ?_⟩
    simpa [hguard] using htidy.2
  · cases htidy

theorem names_of_below (h : r.below = some (version, parts)) :
    names r.path.toList = [] :: apiName :: version.name :: parts := by
  unfold Route.below below at h
  split at h
  · rename_i api v parts' hnames
    split_ifs at h with hapi hv1 hv2
    · cases h
      rw [hnames, not_not.mp hapi, hv1]
      rfl
    · cases h
      rw [hnames, not_not.mp hapi, hv2]
      rfl
  · cases h

theorem mem_apiRoutes {opts : MuxOpts} {useAuth : Bool} (h : r ∈ opts.routes useAuth) (hguard : r.guard ≠ .free) :
    r ∈ apiRoutes := by
  have hfree : ∀ rs : List Route, (∀ x ∈ rs, x.guard = .free) → r ∉ rs := fun rs hrs hr => hguard (hrs r hr)
  have hprofile : r ∉ (if opts.pprofEnabled then [⟨.get, "/debug/pprof/:thing", .free⟩] else []) := by
    refine hfree _ fun x hx => ?_
    split at hx
    · rw [List.mem_singleton.mp hx]
    · cases hx
  have hproviders : r ∉ (if useAuth then opts.providers.flatMap providerRoutes ++ [⟨.get, "/oauth/logout", .free⟩] else []) := by
    refine hfree _ fun x hx => ?_
    split at hx
    · rcases List.mem_append.mp hx with hx | hx
      · obtain ⟨urlName, -, hx⟩ := List.mem_flatMap.mp hx
        obtain ⟨what, -, rfl⟩ := List.mem_map.mp hx
        rfl
      · rw [List.mem_singleton.mp hx]
    · cases hx
  simp only [MuxOpts.routes, List.mem_append, hprofile, hproviders, or_false, false_or] at h
  rcases h with (h | h) | h
  · exact absurd h (hfree _ (by simp))
  · exact h
  · exact absurd h (hfree _ (by simp))

/-! ### Names of base paths and of patterns -/

theorem isWordChar_plain {name : List Char} (hne : name ≠ []) (h : name.all isWordChar) :
    Plain name ∧ ¬ isParam name := by
  rw [List.all_eq_true] at h
  obtain ⟨c, cs, rfl⟩ := List.exists_cons_of_ne_nil hne
  have hc := h c (List.mem_cons_self ..)
  refine ⟨⟨fun hmem => ?_, hne, fun hdot => ?_, fun hdots => ?_⟩, fun hparam => ?_⟩
  · exact absurd (h _ hmem) (by decide)
  · cases hdot
    exact absurd hc (by decide)
  · cases hdots
    exact absurd hc (by decide)
  · obtain rfl : c = ':' := by simpa [isParam] using hparam
    exact absurd hc (by decide)

/-- A base path that is accepted is made of plain names. -/
theorem exists_of_validBasepath {basepath : List Char} (h : validBasepath basepath) :
    ∃ bs : List (List Char), basepath = render bs ∧ ∀ name ∈ bs, Plain name ∧ ¬ isParam name := by
  unfold validBasepath at h
  split at h
  · rename_i first rest hnames
    simp only [Bool.and_eq_true, decide_eq_true_eq] at h
    obtain ⟨rfl, hrest⟩ := h
    have hrender := render_names basepath
    rw [hnames] at hrender
    refine ⟨rest, (List.tail_eq_of_cons_eq hrender).symm, fun name hname => ?_⟩
    have hword := List.all_eq_true.mp hrest name hname
    simp only [Bool.and_eq_true, decide_eq_true_eq] at hword
    exact isWordChar_plain hword.1 hword.2
  · cases h

theorem plain_of_param {part : List Char} (h : isParam part) (hslash : '/' ∉ part) : Plain part := by
  refine ⟨hslash, ?_, ?_, ?_⟩ <;> rintro rfl <;> cases h

theorem plain_of_grounded : ∀ {parts : List (List Char)} {fixed : Bool}, Grounded fixed parts →
    (∀ part ∈ parts, '/' ∉ part) → ∀ part ∈ parts, Plain part
  | [], _, _, _, part, hmem => by cases hmem
  | first :: rest, _, hgrounded, hslash, part, hmem => by
    rw [Grounded] at hgrounded
    have hrest : ∀ q ∈ rest, '/' ∉ q := fun q hq => hslash q (List.mem_cons_of_mem _ hq)
    have hfirst := hslash first (List.mem_cons_self ..)
    split at hgrounded
    · rename_i hparam
      rw [Bool.and_eq_true] at hgrounded
      rcases List.mem_cons.mp hmem with rfl | hmem
      · exact plain_of_param hparam hfirst
      · exact plain_of_grounded hgrounded.2 hrest part hmem
    · rw [Bool.and_eq_true, decide_eq_true_eq] at hgrounded
      rcases List.mem_cons.mp hmem with rfl | hmem
      · exact hgrounded.1
      · exact plain_of_grounded hgrounded.2 hrest part hmem

theorem version_plain (version : Version) : Plain version.name ∧ ¬ isParam version.name := by
  cases version <;> decide

theorem api_plain : Plain apiName ∧ ¬ isParam apiName := by decide

/-- The pattern of a route under the base path. -/
theorem names_mount {bs : List (List Char)} (hbs : ∀ name ∈ bs, Plain name) (hbelow : r.below = some (version, parts))
    (hgrounded : Grounded false parts) :
    names (r.mount (render bs)) = [] :: (bs ++ apiName :: version.name :: parts) := by
  have hnames := names_of_below hbelow
  have hslash : ∀ part ∈ parts, '/' ∉ part := by
    intro part hmem
    have hname : part ∈ names r.path.toList := by
      rw [hnames]
      simp [hmem]
    exact slash_notMem_names hname
  have hplain : ∀ name ∈ apiName :: version.name :: parts, Plain name := by
    intro name hname
    rcases List.mem_cons.mp hname with rfl | hname
    · exact api_plain.1
    rcases List.mem_cons.mp hname with rfl | hname
    · exact (version_plain version).1
    · exact plain_of_grounded hgrounded hslash name hname
  unfold Route.mount
  split
  · rename_i hblank
    rw [render_eq_nil.mp hblank, hnames]
    rfl
  · have hrender := render_names r.path.toList
    rw [hnames] at hrender
    have hpath : r.path.toList = render (apiName :: version.name :: parts) :=
      (List.tail_eq_of_cons_eq hrender).symm
    rw [hpath, joinAll_render hbs hplain (by simp), names_render]
    intro name hname
    rcases List.mem_append.mp hname with hname | hname
    · exact (hbs name hname).1
    · exact (hplain name hname).1

/-! ### The comparison of the cleaned path -/

/-- The names of the path take each other back, as those of `/sources/..` do. -/
def Cancels (path : List Char) : Prop := join [] path = []

instance (path : List Char) : Decidable (Cancels path) := inferInstanceAs (Decidable (_ = _))

/-- The route is one of `/chronograf/v1`. -/
def Route.InV1 (r : Route) : Prop := (names r.path.toList).take 3 = [[], apiName, ['v', '1']]

variable {basepath path : List Char} {req : Request}

theorem rootPath_render {bs : List (List Char)} (hbs : ∀ name ∈ bs, Plain name) :
    rootPath (render bs) = render (bs ++ [apiName, ['v', '1']]) := by
  have htext : "/chronograf/v1".toList = render [apiName, ['v', '1']] := String.toList_ofList
  rw [rootPath, htext, joinAll_render hbs (by decide) (by simp)]

theorem logoutPath_render {bs : List (List Char)} (hbs : ∀ name ∈ bs, Plain name) :
    logoutPath (render bs) = render (bs ++ [['o', 'a', 'u', 't', 'h'], ['l', 'o', 'g', 'o', 'u', 't']]) := by
  have htext : "/oauth/logout".toList = render [['o', 'a', 'u', 't', 'h'], ['l', 'o', 'g', 'o', 'u', 't']] :=
    String.toList_ofList
  rw [logoutPath, htext, joinAll_render hbs (by decide) (by simp)]

/-- The path of a request that a route of the API serves, as the root and the values
below it. -/
structure Served (bs : List (List Char)) (version : Version) (vals : List (List Char)) (r : Route) (path : List Char) :
    Prop where
  base : ∀ name ∈ bs, Plain name
  inV1 : r.InV1 ↔ version = .v1
  text : path = render (bs ++ [apiName, version.name]) ++ render vals
  cleaned : join [] path = bs ++ [apiName, version.name] ++ join [] (render vals)
  me : r.guard = .principal → vals = [['m', 'e']]

/-- Cleaning the path stays below the root. -/
theorem exists_of_serves (hb : validBasepath basepath) (hr : r ∈ apiRoutes) (hserves : r.serves basepath req) :
    ∃ bs version vals, basepath = render bs ∧ Served bs version vals r req.path := by
  obtain ⟨bs, rfl, hbs⟩ := exists_of_validBasepath hb
  obtain ⟨version, parts, hbelow, hparts, hgrounded, hme⟩ := below_of_mem hr
  have hplain : ∀ name ∈ bs, Plain name := fun name hname => (hbs name hname).1
  have hroot : ∀ name ∈ bs ++ [apiName, version.name], Plain name ∧ ¬ isParam name := by
    intro name hname
    rcases List.mem_append.mp hname with hname | hname
    · exact hbs name hname
    rcases List.mem_cons.mp hname with rfl | hname
    · exact api_plain
    · rw [List.mem_singleton.mp hname]
      exact version_plain version
  have hmatch := (Bool.and_eq_true_iff.mp hserves).2
  rw [names_mount hplain hbelow hgrounded] at hmatch
  have hpattern : [] :: (bs ++ apiName :: version.name :: parts) = ([] :: (bs ++ [apiName, version.name])) ++ parts := by
    simp
  rw [hpattern] at hmatch
  obtain ⟨vals, hnames, hvals⟩ := matchNames_append (fun part hpart => by
    rcases List.mem_cons.mp hpart with rfl | hpart
    · decide
    · exact (hroot part hpart).2) hmatch
  refine ⟨bs, version, vals, rfl, hplain, ?_, ?_, ?_, fun hguard => ?_⟩
  · rw [Route.InV1, names_of_below hbelow]
    cases version <;> simp [Version.name]
  · have hrender := render_names req.path
    rw [hnames] at hrender
    exact (List.tail_eq_of_cons_eq hrender).symm.trans (render_append _ _)
  · have hvalues : join [] (render vals) = vals.foldl enter [] := by
      have hslash : ∀ v ∈ vals, '/' ∉ v := fun v hv =>
        slash_notMem_names (by rw [hnames]; exact List.mem_append_right _ hv)
      rw [join, names_render hslash]
      rfl
    have hbegins : ([] :: (bs ++ [apiName, version.name])).foldl enter [] = bs ++ [apiName, version.name] :=
      foldl_enter_plain (fun name hname => (hroot name hname).1) []
    have hstays : vals.foldl enter (bs ++ [apiName, version.name] ++ []) = _ :=
      foldl_enter_grounded hgrounded hvals (by simp) _
    rw [List.append_nil] at hstays
    rw [join, hnames, List.foldl_append, hbegins, hstays, hvalues]
  · obtain ⟨-, rfl⟩ := hme hguard
    obtain ⟨v, hv⟩ := List.length_eq_one_iff.mp (matchNames_length hvals).symm
    rw [hv] at hvals ⊢
    have hvalue : ['m', 'e'] = v := (matchNames_cons hvals).1.resolve_left (by decide)
    rw [hvalue]

theorem Served.clean {bs vals : List (List Char)} (h : Served bs version vals r path) :
    clean path = render (bs ++ [apiName, version.name]) ++ render (join [] (render vals)) := by
  have hhead : path.head? = some '/' := by
    rw [h.text]
    cases bs <;> rfl
  have hne : join [] path ≠ [] := by
    rw [h.cleaned]
    simp
  rw [clean_rooted hhead hne, h.cleaned, render_append]

theorem Served.rest {bs vals : List (List Char)} (h : Served bs .v1 vals r path) :
    path.drop (rootPath (render bs)).length = render vals := by
  rw [rootPath_render h.base, h.text]
  exact List.drop_left

/-- A request that a route of the API serves goes through `AuthorizedToken` exactly
if the route is one of `v1` and the names behind the root do not cancel. -/
theorem behindToken_iff (hb : validBasepath basepath) (hr : r ∈ apiRoutes) (hserves : r.serves basepath req) :
    behindToken basepath req.path ↔ r.InV1 ∧ ¬ Cancels (req.path.drop (rootPath basepath).length) := by
  obtain ⟨bs, version, vals, rfl, h⟩ := exists_of_serves hb hr hserves
  have hlogout : clean req.path ≠ logoutPath (render bs) := by
    rw [h.clean, logoutPath_render h.base, render_append, render_append, List.append_assoc]
    intro heq
    cases List.append_cancel_left heq
  unfold behindToken
  simp only [hlogout, decide_false, Bool.or_false, Bool.and_eq_true, List.isPrefixOf_iff_prefix, decide_eq_true_eq,
    gt_iff_lt]
  rw [h.inV1, h.clean]
  cases version with
  | v1 =>
    rw [h.rest, rootPath_render h.base]
    simp [Version.name, Cancels, List.length_pos_iff, render_eq_nil]
  | v2 =>
    refine iff_of_false (fun hprefix => ?_) (by simp)
    rw [rootPath_render h.base, render_append, render_append, List.append_assoc, List.prefix_append_right_inj] at hprefix
    exact absurd hprefix.1 (by simp [render, Version.name])

/-- The handlers that ask for the principal themselves are always reached with it. -/
theorem behindToken_of_principal (hb : validBasepath basepath) (hr : r ∈ apiRoutes) (hserves : r.serves basepath req)
    (hguard : r.guard = .principal) : behindToken basepath req.path := by
  have hinv1 : r.InV1 := by
    obtain ⟨version, parts, hbelow, -, -, hme⟩ := below_of_mem hr
    obtain ⟨rfl, -⟩ := hme hguard
    rw [Route.InV1, names_of_below hbelow]
    rfl
  refine (behindToken_iff hb hr hserves).mpr ⟨hinv1, ?_⟩
  · obtain ⟨bs, version, vals, rfl, h⟩ := exists_of_serves hb hr hserves
    obtain rfl := h.me hguard
    obtain rfl := h.inV1.mp hinv1
    rw [h.rest]
    decide

/-! ### Who reaches a handler -/

/-- The user the session belongs to, granted what the route asks for, reaches its
handler. -/
def Reaches (s : Service) (opts : MuxOpts) (req : Request) (r : Route) : Prop :=
  ∀ required unrouted db p org u given, r.guard = .role required → Granted db required p org u given →
    ∀ handle, (newMux s opts handle unrouted (some p) req {}).run db =
      (handle r ((({} : Context).withPrincipal p).granted org u given)).run db

/-- Nobody without a session reaches a handler that asks for the principal itself, and
whoever reaches it has its own on the context. -/
def Personal (s : Service) (opts : MuxOpts) (req : Request) (r : Route) : Prop :=
  r.guard = .principal → ∀ handle unrouted,
    newMux s opts handle unrouted none req {} = Tx.fail { code := 403 } ∧
      ∀ p, newMux s opts handle unrouted (some p) req {} = handle r (({} : Context).withPrincipal p)

/-- The principal of the session is there when the guard of the route asks for it. -/
structure GetsPrincipal (s : Service) (opts : MuxOpts) (req : Request) (r : Route) : Prop where
  first : behindToken opts.basepath req.path
  reaches : Reaches s opts req r
  personal : Personal s opts req r

variable {s : Service} {opts : MuxOpts}

/-- A route that is guarded gets its principal exactly if it is one of `v1` and the
names of the path behind the root do not cancel; nobody is authorized on another one. -/
theorem gets_principal_iff (hauth : s.useAuth = true) (hb : validBasepath opts.basepath)
    (hdispatch : opts.dispatch s.useAuth req = some r) (hguard : r.guard ≠ .free) :
    (GetsPrincipal s opts req r ↔ r.InV1 ∧ ¬ Cancels (req.path.drop (rootPath opts.basepath).length)) ∧
      (¬ (r.InV1 ∧ ¬ Cancels (req.path.drop (rootPath opts.basepath).length)) → ∀ handle unrouted validated db,
        (newMux s opts handle unrouted validated req {}).run db = (.error notAuthorized, db)) := by
  have hfound : (opts.routes s.useAuth).find? (fun r => r.serves opts.basepath req) = some r := hdispatch
  have hserves : r.serves opts.basepath req := by simpa using List.find?_some hfound
  have hr : r ∈ apiRoutes := mem_apiRoutes (List.mem_of_find?_eq_some hfound) hguard
  have htoken := behindToken_iff hb hr hserves
  have hmux : ∀ handle unrouted validated, newMux s opts handle unrouted validated req =
      if behindToken opts.basepath req.path then authorizedToken validated (r.guarded s (handle r))
      else r.guarded s (handle r) := by
    intro handle unrouted validated
    unfold newMux
    rw [hdispatch]
    simp only [hauth, true_and]
  rw [← htoken]
  refine ⟨⟨fun h => h.first, fun h => ⟨h, ?_, ?_⟩⟩, fun h handle unrouted validated db => ?_⟩
  · intro required unrouted db p org u given hrole hgranted handle
    rw [hmux, if_pos h]
    unfold Route.guarded
    rw [hrole]
    exact Tx.run_bind_ok (authorize_of_granted hauth rfl rfl hgranted)
  · intro hprincipal handle unrouted
    have hguarded : r.guarded s (handle r) = handle r := by
      unfold Route.guarded
      rw [hprincipal]
    rw [hmux, if_pos h, hguarded]
    refine ⟨rfl, fun p => ?_⟩
    rw [hmux, if_pos h, hguarded]
    rfl
  · rw [hmux, if_neg h]
    unfold Route.guarded
    rcases hrole : r.guard with _ | _ | required
    · exact absurd hrole hguard
    · exact absurd (behindToken_of_principal hb hr hserves hrole) h
    · exact Tx.run_bind_error (run_authorize_invalid hauth rfl)

/-! ### Two requests -/

/-- Neither a base path nor providers. -/
def bareOpts : MuxOpts := { basepath := [], providers := [], pprofEnabled := false }

/-- `GET /chronograf/v1/organizations` -/
def listOrganizations : Request := { method := .get, path := render [apiName, ['v', '1'], "organizations".toList] }

theorem organizations_get_principal : GetsPrincipal exampleService bareOpts listOrganizations
    ⟨.get, "/chronograf/v1/organizations", ensureAdmin⟩ :=
  (gets_principal_iff (r := ⟨.get, "/chronograf/v1/organizations", ensureAdmin⟩) rfl (by decide) (by decide +kernel)
    (by decide)).1.mpr ⟨by unfold Route.InV1; decide +kernel, by decide +kernel⟩

theorem find_skip {method : Method} {path : String} {text : List Char} {guard : Guard} {rs : List Route}
    (hpath : path = String.ofList text) (hno : (method = req.method && matchNames (names text) (names req.path)) = false)
    (hrest : rs.find? (fun r => r.serves [] req) = some r) :
    (⟨method, path, guard⟩ :: rs).find? (fun r => r.serves [] req) = some r := by
  rw [List.find?_cons_of_neg, hrest]
  rw [hpath]
  simpa [Route.serves, Route.mount] using hno

theorem find_here {method : Method} {path : String} {text : List Char} {guard : Guard} {rs : List Route}
    (hpath : path = String.ofList text) (hyes : (method = req.method && matchNames (names text) (names req.path)) = true) :
    (⟨method, path, guard⟩ :: rs).find? (fun r => r.serves [] req) = some ⟨method, path, guard⟩ := by
  rw [List.find?_cons_of_pos]
  rw [hpath]
  simpa [Route.serves, Route.mount] using hyes

/-- `GET /chronograf/v2/cells` -/
def listCells : Request := { method := .get, path := render [apiName, ['v', '2'], ['c', 'e', 'l', 'l', 's']] }

/-- `GET /chronograf/v1/organizations/..` -/
def dotsOrganization : Request :=
  { method := .get, path := render [apiName, ['v', '1'], "organizations".toList, ['.', '.']] }

theorem find_listCells : apiRoutes.find? (fun r => r.serves [] listCells) =
    some ⟨.get, "/chronograf/v2/cells", ensureViewer⟩ := by
  unfold apiRoutes
  repeat refine find_skip rfl rfl ?_
  exact find_here rfl rfl

theorem dispatch_listCells : bareOpts.dispatch true listCells = some ⟨.get, "/chronograf/v2/cells", ensureViewer⟩ := by
  have hdocs : List.find? (fun r : Route => r.serves [] listCells)
      [⟨.get, "/swagger.json", .free⟩, ⟨.get, "/docs", .free⟩] = none := by decide +kernel
  simp only [MuxOpts.dispatch, MuxOpts.routes, bareOpts, List.find?_append, hdocs, find_listCells, Bool.false_eq_true,
    if_false, List.find?_nil, Option.none_or, Option.some_or]

/-- No session is looked at for the cells, nor for the organization `..`. -/
theorem cells_without_principal :
    (bareOpts.dispatch true listCells = some ⟨.get, "/chronograf/v2/cells", ensureViewer⟩ ∧
      ¬ GetsPrincipal exampleService bareOpts listCells ⟨.get, "/chronograf/v2/cells", ensureViewer⟩) ∧
    bareOpts.dispatch true dotsOrganization = some ⟨.get, "/chronograf/v1/organizations/:oid", ensureAdmin⟩ ∧
      ¬ GetsPrincipal exampleService bareOpts dotsOrganization ⟨.get, "/chronograf/v1/organizations/:oid", ensureAdmin⟩ := by
  refine ⟨⟨dispatch_listCells, fun h => ?_⟩, by decide +kernel, fun h => ?_⟩
  · exact absurd h.first (by decide +kernel)
  · exact absurd h.first (by decide +kernel)

end Server
end Chronograf
