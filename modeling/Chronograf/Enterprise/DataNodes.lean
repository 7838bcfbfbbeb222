/-
# The data nodes of a cluster

`Connect`, `Query`, `Write` and `nextDataNode` of `enterprise/enterprise.go`,
with the `Connect` of `influx/influx.go` for each data node. The client has a
ring of the data nodes that the meta service lists and asks them in turn. The
ring has a place for every node that is listed, and the nodes that cannot be
connected leave places empty.

Key definitions: `Client`, `Client.call`, `Client.outcomes`, `Sound`, `Served`.
Key theorems: `fair_of_never_panics`, `never_panics_iff`, `served_iff`.
-/
import Chronograf.Types
import Chronograf.Lib.Rings
import Chronograf.Lib.Runs

namespace Chronograf
namespace Enterprise
namespace DataNodes

/-! ### Clients -/

/-- `chronograf.ErrUninitialized`, or the error of the meta service. -/
inductive ConnectError
  | uninitialized
  | showCluster (message : String)
  deriving DecidableEq

/-- A data node that the meta service lists. -/
structure DataNode where
  httpAddr : String
  deriving DecidableEq

structure Cluster where
  dataNodes : List DataNode
  deriving DecidableEq

/-- A URL as `url.Parse` gives it. -/
structure Url where
  scheme : String
  rest : String
  deriving DecidableEq

inductive Authorizer
  | bearerJWT (username sharedSecret : String)
  | basicAuth (username password : String)
  | noAuthorization
  deriving DecidableEq

def defaultAuthorization (src : Source) : Authorizer :=
  if src.username ≠ "" ∧ src.sharedSecret ≠ "" then .bearerJWT src.username src.sharedSecret
  else if src.username ≠ "" ∧ src.password ≠ "" then .basicAuth src.username src.password
  else .noAuthorization

/-- `influx.Client`, a data node that is connected. -/
structure TimeSeries where
  url : Url
  authorizer : Authorizer
  insecureSkipVerify : Bool
  deriving DecidableEq

/-- `Connect` of `influx.Client`; `none` is the error of `url.Parse`. -/
def TimeSeries.connect (parse : String → Option Url) (src : Source) : Option TimeSeries :=
  (parse src.url).map fun u => ⟨u, defaultAuthorization src, u.scheme = "https" ∧ src.insecureSkipVerify⟩

structure Client where
  opened : Bool
  dataNodes : Option (HeldRing (Option TimeSeries))

def newClientWithURL : Client := ⟨false, none⟩

/-- What a call comes to; a request that is asked has the result of the node. -/
inductive Outcome
  | connected
  | failed (err : ConnectError)
  | panicked
  | asked (node : TimeSeries)
  deriving DecidableEq

/-- The nodes of the list that can be connected, in order. -/
def connectable (parse : String → Option Url) (src : Source) (nodes : List DataNode) : List TimeSeries :=
  nodes.filterMap fun dn => TimeSeries.connect parse { src with url := dn.httpAddr }

/-- `Connect`, with the reply of `ShowCluster`. -/
def Client.connect (parse : String → Option Url) (c : Client) (src : Source) (reply : Except String Cluster) : Client × Outcome :=
  let c := { c with opened := true }
  if c.dataNodes.isSome then (c, .connected)
  else match reply with
    | .error err => (c, .failed (.showCluster err))
    | .ok cluster =>
      let ring := cluster.dataNodes.foldl (fun ring dn =>
        match TimeSeries.connect parse { src with url := dn.httpAddr } with
        | none => ring
        | some cl => ring.map fun r => (r.setValue (some cl)).next) (HeldRing.new cluster.dataNodes.length)
      ({ c with dataNodes := ring }, .connected)

/-- `nextDataNode().Query` or `.Write`. No ring, or a place that holds nothing, makes it panic. -/
def Client.ask (c : Client) : Client × Outcome :=
  if !c.opened then (c, .failed .uninitialized)
  else match c.dataNodes with
    | none => (c, .panicked)
    | some r => ({ c with dataNodes := some r.next }, r.next.value.elim .panicked .asked)

inductive Call
  | connect (src : Source) (reply : Except String Cluster)
  | query
  | write

def Call.isAsk : Call → Bool
  | connect _ _ => false
  | query => true
  | write => true

def Client.call (parse : String → Option Url) (c : Client) : Call → Client × Outcome
  | .connect src reply => c.connect parse src reply
  | .query => c.ask
  | .write => c.ask

/-- The client after the calls. -/
def Client.after (parse : String → Option Url) (c : Client) (calls : List Call) : Client :=
  calls.foldl (fun c call => (c.call parse call).1) c

/-- What the calls come to, one after the other. -/
def Client.outcomes (parse : String → Option Url) : Client → List Call → List Outcome
  | _, [] => []
  | c, call :: calls => (c.call parse call).2 :: (c.call parse call).1.outcomes parse calls

/-- The nodes that are connected. -/
def Client.nodes (c : Client) : List TimeSeries := (c.dataNodes.elim [] HeldRing.cells).filterMap id

def Outcome.node? : Outcome → Option TimeSeries
  | asked node => some node
  | _ => none

def Outcome.IsError (o : Outcome) : Prop := ∃ err, o = failed err

/-- No call panics, a request fails while no node is connected, and as many
requests in a row as there are connected nodes ask each of these once. -/
structure Sound (parse : String → Option Url) (calls : List Call) : Prop where
  never_panics : Outcome.panicked ∉ newClientWithURL.outcomes parse calls
  fails : ∀ pre call post, calls = pre ++ call :: post → call.isAsk → (newClientWithURL.after parse pre).nodes = [] →
    ((newClientWithURL.after parse pre).call parse call).2.IsError
  fair : ∀ pre mid post, calls = pre ++ (mid ++ post) →
    mid.countP Call.isAsk = (newClientWithURL.after parse pre).nodes.length →
    (((newClientWithURL.after parse pre).outcomes parse mid).filterMap Outcome.node?).Perm (newClientWithURL.after parse pre).nodes

/-- Requests that a ring of `places` places can serve when `filled` of them hold a node and not all do. -/
def allowance (filled places : ℕ) : ℕ := if filled + 1 = places then filled else 0

/-- Once `Connect` has been called no request comes before a list of nodes, and
after it either all of its nodes could be connected, or all but one and there
are no more requests than nodes, or there are no requests. -/
def Served (parse : String → Option Url) : Bool → List Call → Prop
  | _, [] => True
  | _, .connect _ (.error _) :: calls => Served parse true calls
  | _, .connect src (.ok cluster) :: calls =>
    if cluster.dataNodes = [] then Served parse true calls
    else (connectable parse src cluster.dataNodes).length = cluster.dataNodes.length ∨
      calls.countP Call.isAsk ≤ allowance (connectable parse src cluster.dataNodes).length cluster.dataNodes.length
  | opened, .query :: calls => opened = false ∧ Served parse opened calls
  | opened, .write :: calls => opened = false ∧ Served parse opened calls

variable {parse : String → Option Url} {c : Client} {r : HeldRing (Option TimeSeries)}

/-! ### The ring -/

theorem length_connectable (src : Source) (nodes : List DataNode) : (connectable parse src nodes).length ≤ nodes.length :=
  List.length_filterMap_le _ _

theorem connect_ring (src : Source) : ∀ (nodes : List DataNode) (r : HeldRing (Option TimeSeries)),
    nodes.foldl (fun ring dn => match TimeSeries.connect parse { src with url := dn.httpAddr } with
      | none => ring
      | some cl => ring.map fun r => (r.setValue (some cl)).next) (some r) =
      some (r.fill ((connectable parse src nodes).map some))
  | [], _ => rfl
  | dn :: nodes, r => by
    rw [List.foldl_cons, connectable, List.filterMap_cons]
    cases TimeSeries.connect parse { src with url := dn.httpAddr } with
    | none => exact connect_ring src nodes r
    | some cl => exact connect_ring src nodes _

/-- The ring of the first list that is not empty: the empty places, then the nodes. -/
theorem exists_ring (parse : String → Option Url) (src : Source) {nodes : List DataNode} (h : nodes ≠ []) :
    ∃ r : HeldRing (Option TimeSeries), nodes.foldl (fun ring dn =>
        match TimeSeries.connect parse { src with url := dn.httpAddr } with
        | none => ring
        | some cl => ring.map fun r => (r.setValue (some cl)).next) (HeldRing.new nodes.length) = some r ∧
      r.cells = List.replicate (nodes.length - (connectable parse src nodes).length) none ++
        (connectable parse src nodes).map some := by
  have hlength : nodes.length ≠ 0 := mt List.length_eq_zero_iff.mp h
  have hle : (connectable parse src nodes).length ≤ nodes.length := length_connectable src nodes
  refine ⟨_, by rw [HeldRing.new, dif_neg hlength, connect_ring], ?_⟩
  rw [HeldRing.cells_fill _ _ (by rwa [List.length_map, List.length_replicate]), List.length_map, List.drop_replicate]

/-- The requests that a ring can serve. -/
theorem visits_full_iff {N n : ℕ} {nodes : List TimeSeries} (hN : nodes.length ≤ N)
    (hcells : r.cells = List.replicate (N - nodes.length) none ++ nodes.map some) :
    none ∉ r.visits n ↔ nodes.length = N ∨ n ≤ allowance nodes.length N := by
  rcases Nat.eq_or_lt_of_le hN with hfull | hlt
  · -- no place is empty
    refine iff_of_true (fun hnone => ?_) (.inl hfull)
    have hmem := HeldRing.visits_mem n r none hnone
    rw [hcells, hfull, Nat.sub_self, List.replicate_zero, List.nil_append] at hmem
    simp at hmem
  · -- the ring is held at an empty place, and behind the nodes it comes back to it
    obtain ⟨d, hd⟩ : ∃ d, N - nodes.length = d + 1 := ⟨N - nodes.length - 1, by omega⟩
    have hrotate : r.cells.rotate 1 = List.replicate d none ++ nodes.map some ++ [none] := by
      rw [hcells, hd, List.replicate_succ, List.cons_append, List.rotate_cons_succ, List.rotate_zero]
    have hlength : r.cells.length = d + nodes.length + 1 := by
      rw [← List.length_rotate r.cells 1, hrotate, List.length_append, List.length_append, List.length_replicate,
        List.length_map, List.length_singleton]
    have hallow : allowance nodes.length N = if d = 0 then nodes.length else 0 := by
      rw [allowance]
      exact if_congr (by omega) rfl rfl
    rw [or_iff_right (Nat.ne_of_lt hlt), hallow]
    constructor
    · intro hnone
      by_contra hn
      apply hnone
      obtain ⟨m, rfl⟩ := Nat.exists_eq_add_of_lt (not_le.mp hn)
      obtain ⟨s, hs⟩ := HeldRing.visits_add ((if d = 0 then nodes.length else 0) + 1) m r
      rw [Nat.add_right_comm, hs]
      refine List.mem_append_left _ ?_
      rw [HeldRing.visits_eq_take _ _ (by rw [hlength]; split_ifs <;> omega), hrotate]
      cases d with
      | zero =>
        rw [if_pos rfl, List.take_of_length_le (by simp)]
        simp
      | succ d => simp [List.replicate_succ]
    · intro hn
      rw [HeldRing.visits_eq_take _ _ (by rw [hlength]; split_ifs at hn <;> omega), hrotate]
      cases d with
      | zero =>
        rw [if_pos rfl] at hn
        rw [List.replicate_zero, List.nil_append, List.take_append_of_le_length (by rwa [List.length_map])]
        intro hmem
        simpa using List.mem_of_mem_take hmem
      | succ d =>
        rw [if_neg d.succ_ne_zero] at hn
        simp [Nat.le_zero.mp hn]

/-! ### Calls -/

@[simp] theorem outcomes_nil : c.outcomes parse [] = [] := rfl

@[simp] theorem outcomes_cons (call : Call) (calls : List Call) :
    c.outcomes parse (call :: calls) = (c.call parse call).2 :: (c.call parse call).1.outcomes parse calls := rfl

theorem outcomes_append : ∀ (pre post : List Call) (c : Client),
    c.outcomes parse (pre ++ post) = c.outcomes parse pre ++ (c.after parse pre).outcomes parse post
  | [], _, _ => rfl
  | call :: pre, post, c => congrArg (_ :: ·) (outcomes_append pre post (c.call parse call).1)

theorem connect_opened (src : Source) (reply : Except String Cluster) : (c.connect parse src reply).1.opened = true := by
  obtain ⟨opened, _ | r⟩ := c
  · cases reply <;> rfl
  · rfl

theorem node?_connect (src : Source) (reply : Except String Cluster) : (c.connect parse src reply).2.node? = none := by
  obtain ⟨opened, _ | r⟩ := c
  · cases reply <;> rfl
  · rfl

theorem ask_opened : c.ask.1.opened = c.opened ∧ c.ask.1.dataNodes.isSome = c.dataNodes.isSome := by
  obtain ⟨_ | _, _ | r⟩ := c <;> exact ⟨rfl, rfl⟩

/-- A client that has nodes was opened. -/
theorem after_opened (calls : List Call) :
    (newClientWithURL.after parse calls).dataNodes.isSome → (newClientWithURL.after parse calls).opened := by
  refine foldl_keeps (I := fun c : Client => c.dataNodes.isSome → c.opened) (fun c call hc => ?_) calls newClientWithURL nofun
  have hask : c.ask.1.dataNodes.isSome → c.ask.1.opened := by
    rw [ask_opened.1, ask_opened.2]
    exact hc
  cases call with
  | connect src reply => exact fun _ => connect_opened src reply
  | query => exact hask
  | write => exact hask

theorem length_asked : ∀ (calls : List Call) (c : Client),
    ((c.outcomes parse calls).filterMap Outcome.node?).length ≤ calls.countP Call.isAsk
  | [], _ => le_rfl
  | call :: calls, c => by
    have ih := length_asked calls (c.call parse call).1
    have hcall : call.isAsk = false → (c.call parse call).2.node? = none := by
      intro h
      cases call with
      | connect src reply => exact node?_connect src reply
      | query => cases h
      | write => cases h
    rw [outcomes_cons, List.filterMap_cons, List.countP_cons]
    cases hask : call.isAsk with
    | false =>
      rw [hcall hask]
      exact ih
    | true =>
      rw [if_pos rfl]
      cases (c.call parse call).2.node? with
      | none => exact ih.trans (Nat.le_succ _)
      | some node => exact Nat.succ_le_succ ih

/-- A request to a client with nodes asks for the next one. -/
theorem call_ask (hc : c.opened = true) (hr : c.dataNodes = some r) {call : Call} (hcall : call.isAsk = true) :
    c.call parse call = (⟨c.opened, some r.next⟩, r.next.value.elim .panicked .asked) := by
  have hask : c.ask = (⟨c.opened, some r.next⟩, r.next.value.elim .panicked .asked) := by
    rw [Client.ask, hc, hr]
    rfl
  cases call with
  | connect => cases hcall
  | query => exact hask
  | write => exact hask

theorem call_connect (hr : c.dataNodes = some r) (src : Source) (reply : Except String Cluster) :
    c.call parse (.connect src reply) = (⟨true, some r⟩, .connected) := by
  obtain ⟨opened, nodes⟩ := c
  cases hr
  rfl

/-- The nodes that a client with nodes asks are those it visits. -/
theorem outcomes_visits (parse : String → Option Url) : ∀ (calls : List Call) {r : HeldRing (Option TimeSeries)},
    (Outcome.panicked ∈ (Client.mk true (some r)).outcomes parse calls ↔ none ∈ r.visits (calls.countP Call.isAsk)) ∧
      ((Client.mk true (some r)).outcomes parse calls).filterMap Outcome.node? =
        (r.visits (calls.countP Call.isAsk)).filterMap id
  | [], _ => ⟨iff_of_false nofun nofun, rfl⟩
  | call :: calls, r => by
    rw [outcomes_cons, List.filterMap_cons, List.countP_cons]
    cases hcall : call.isAsk with
    | true =>
      obtain ⟨hpanic, hnodes⟩ := outcomes_visits parse calls (r := r.next)
      rw [call_ask rfl rfl hcall, if_pos rfl, HeldRing.visits, List.filterMap_cons, List.mem_cons, List.mem_cons]
      dsimp only
      rw [hpanic, hnodes]
      cases r.next.value with
      | none => exact ⟨by simp, rfl⟩
      | some node => exact ⟨by simp, rfl⟩
    | false =>
      obtain ⟨hpanic, hnodes⟩ := outcomes_visits parse calls (r := r)
      cases call with
      | connect src reply =>
        rw [call_connect rfl, List.mem_cons]
        dsimp only
        rw [hpanic, hnodes]
        exact ⟨by simp, rfl⟩
      | query => cases hcall
      | write => cases hcall

/-! ### Runs -/

theorem outcomes_of_append {pre mid post : List Call} (c : Client) {o : Outcome}
    (h : o ∉ c.outcomes parse (pre ++ (mid ++ post))) : o ∉ (c.after parse pre).outcomes parse mid := by
  rw [outcomes_append, outcomes_append] at h
  exact fun hmem => h (List.mem_append_right _ (List.mem_append_left _ hmem))

/-- Requests that do not panic ask each of the nodes once, if they are as many. -/
theorem fair_of_never_panics {calls : List Call} (hopened : c.dataNodes.isSome → c.opened)
    (hpanic : Outcome.panicked ∉ c.outcomes parse calls) (hn : calls.countP Call.isAsk = c.nodes.length) :
    ((c.outcomes parse calls).filterMap Outcome.node?).Perm c.nodes := by
  obtain ⟨opened, nodes⟩ := c
  cases nodes with
  | none =>
    have hnil : (((Client.mk opened none).outcomes parse calls).filterMap Outcome.node?).length ≤ calls.countP Call.isAsk :=
      length_asked calls _
    rw [hn] at hnil
    rw [List.length_eq_zero_iff.mp (Nat.le_zero.mp hnil)]
    rfl
  | some r =>
    obtain rfl : opened = true := hopened rfl
    obtain ⟨hvisits, hasked⟩ := outcomes_visits parse calls (r := r)
    rw [hasked]
    refine HeldRing.visits_perm_of_full ?_ hn
    -- what is visited holds a node
    have hfull : ∀ (as : List (Option TimeSeries)), none ∉ as → as = (as.filterMap id).map some := by
      intro as
      induction as with
      | nil => exact fun _ => rfl
      | cons a as ih =>
        intro has
        rw [List.mem_cons, not_or] at has
        obtain ⟨node, rfl⟩ := Option.ne_none_iff_exists'.mp (Ne.symm has.1)
        exact congrArg (some node :: ·) (ih has.2)
    exact hfull _ (mt hvisits.mpr hpanic)

/-- A request that does not panic while no node is connected fails. -/
theorem fails_of_never_panics (hopened : c.dataNodes.isSome → c.opened) {call : Call} (hcall : call.isAsk)
    (hnodes : c.nodes = []) (hpanic : (c.call parse call).2 ≠ .panicked) : (c.call parse call).2.IsError := by
  obtain ⟨opened, nodes⟩ := c
  cases nodes with
  | none =>
    cases opened with
    | false =>
      cases call with
      | connect => cases hcall
      | query => exact ⟨_, rfl⟩
      | write => exact ⟨_, rfl⟩
    | true =>
      cases call with
      | connect => cases hcall
      | query => exact absurd rfl hpanic
      | write => exact absurd rfl hpanic
  | some r =>
    obtain rfl : opened = true := hopened rfl
    rw [call_ask rfl rfl hcall] at hpanic
    have hmem : r.next.value ∈ r.cells := (HeldRing.perm_cells_next r).mem_iff.mp (List.head_mem _)
    cases hvalue : r.next.value with
    | none => exact absurd (by rw [hvalue]; rfl) hpanic
    | some node =>
      rw [hvalue] at hmem
      have hnode : node ∈ r.cells.filterMap id := List.mem_filterMap.mpr ⟨some node, hmem, rfl⟩
      have hnil : r.cells.filterMap id = [] := hnodes
      rw [hnil] at hnode
      cases hnode

/-- No call panics if and only if the requests can be served. -/
theorem never_panics_iff : ∀ (calls : List Call) (opened : Bool),
    Outcome.panicked ∉ (Client.mk opened none).outcomes parse calls ↔ Served parse opened calls
  | [], _ => iff_of_true nofun trivial
  | .connect src (.error err) :: calls, opened => by
    rw [outcomes_cons, List.mem_cons, Served, ← never_panics_iff calls true]
    exact not_congr (or_iff_right nofun)
  | .connect src (.ok cluster) :: calls, opened => by
    rw [outcomes_cons, List.mem_cons, Served]
    by_cases hnodes : cluster.dataNodes = []
    · rw [if_pos hnodes, ← never_panics_iff calls true]
      have hcall : (Client.mk opened none).call parse (.connect src (.ok cluster)) = (⟨true, none⟩, .connected) := by
        rw [Client.call, show cluster = ⟨[]⟩ from congrArg Cluster.mk hnodes]
        rfl
      rw [hcall]
      exact not_congr (or_iff_right nofun)
    · obtain ⟨r, hring, hcells⟩ := exists_ring parse src hnodes
      have hcall : (Client.mk opened none).call parse (.connect src (.ok cluster)) = (⟨true, some r⟩, .connected) :=
        congrArg (fun ring => (Client.mk true ring, Outcome.connected)) hring
      rw [if_neg hnodes, hcall, ← visits_full_iff (length_connectable src _) hcells]
      exact not_congr ((or_iff_right nofun).trans (outcomes_visits parse calls).1)
  | .query :: calls, opened => by
    rw [outcomes_cons, List.mem_cons, Served]
    cases opened with
    | false =>
      rw [← never_panics_iff calls false]
      exact (not_congr (or_iff_right nofun)).trans (and_iff_right rfl).symm
    | true => exact iff_of_false (fun h => h (.inl rfl)) nofun
  | .write :: calls, opened => by
    rw [outcomes_cons, List.mem_cons, Served]
    cases opened with
    | false =>
      rw [← never_panics_iff calls false]
      exact (not_congr (or_iff_right nofun)).trans (and_iff_right rfl).symm
    | true => exact iff_of_false (fun h => h (.inl rfl)) nofun

/-- Every request goes to a connected node, each in its turn, if and only if the
requests can be served. -/
theorem served_iff (parse : String → Option Url) (calls : List Call) : Sound parse calls ↔ Served parse false calls := by
  rw [← never_panics_iff]
  refine ⟨fun h => h.never_panics, fun hpanic => ⟨hpanic, ?_, ?_⟩⟩
  · rintro pre call post rfl hcall hnodes
    have hone : Outcome.panicked ∉ (newClientWithURL.after parse pre).outcomes parse [call] :=
      outcomes_of_append newClientWithURL hpanic
    exact fails_of_never_panics (after_opened pre) hcall hnodes fun h => hone (List.mem_singleton.mpr h.symm)
  · rintro pre mid post rfl hn
    exact fair_of_never_panics (after_opened pre) (outcomes_of_append newClientWithURL hpanic) hn

/-- The meta service does not answer, and the next query finds no ring. -/
theorem query_panics : ¬ ∀ (parse : String → Option Url) (calls : List Call), Sound parse calls := by
  intro h
  have hserved := h (fun url => some ⟨"http", url⟩)
    [.connect ⟨1, "cluster", "influx-enterprise", "", "", "", "http://localhost:8086", "http://localhost:8091", false, true, "", "", "", ""⟩
      (.error "connection refused"), .query]
  exact hserved.never_panics (List.mem_cons_of_mem _ (List.mem_cons_self ..))

end DataNodes
end Enterprise
end Chronograf
