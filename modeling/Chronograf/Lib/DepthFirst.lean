/-
# Depth-first search

The order in which a depth-first search leaves the nodes of a graph, and the
search for a cycle along every path. The recursion is bounded by a number that
the number of nodes is enough for. Without cycles, every node is left once and
after all its children.

Key definitions: `DepthFirst.visit`, `DepthFirst.postorder`, `DepthFirst.onCycle`.
Key theorems: `DepthFirst.postorder_spec`, `DepthFirst.mem_reachable_iff`,
`DepthFirst.acyclic_iff`.
-/
import Mathlib.Data.Finset.Card
import Mathlib.Logic.Relation

namespace DepthFirst

open Relation

variable {α : Type}

section Search

variable [DecidableEq α] (children : α → List α)

/-- From a node that is not seen yet: the nodes seen and those left, in order. -/
def visit : ℕ → α → List α × List α → List α × List α
  | 0, _, s => s
  | fuel + 1, node, s =>
    let below := (children node).foldl (fun s child => if child ∈ s.1 then s else visit fuel child s) (node :: s.1, s.2)
    (below.1, below.2 ++ [node])

/-- The nodes, in the order in which they are left. -/
def postorder (nodes : List α) : List α :=
  (nodes.foldl (fun s node => if node ∈ s.1 then s else visit children nodes.length node s) ([], [])).2

/-- A node that is met again on a path from `node` that has passed `seen`. -/
def onCycle : ℕ → α → List α → Option α
  | 0, node, _ => some node
  | fuel + 1, node, seen =>
    if node ∈ seen then some node else (children node).findSome? fun child => onCycle fuel child (seen ++ [node])

end Search

section Order

variable (children : α → List α)

/-- One node is a child of the other. -/
def Child (c p : α) : Prop := c ∈ children p

/-- Every node comes after its children. -/
def Closed (order : List α) : Prop := ∀ l₁ a l₂, order = l₁ ++ a :: l₂ → ∀ c ∈ children a, c ∈ l₁

theorem Closed.nil : Closed children [] := fun l₁ a l₂ h => absurd h (by simp)

variable {children}

theorem Closed.concat {order : List α} {node : α} (h : Closed children order) (hnode : ∀ c ∈ children node, c ∈ order) :
    Closed children (order ++ [node]) := by
  intro l₁ a l₂ heq c hc
  rcases List.eq_nil_or_concat l₂ with rfl | ⟨l₂, z, rfl⟩
  · obtain ⟨rfl, hlast⟩ := List.append_inj' heq rfl
    obtain rfl : node = a := by simpa using hlast
    exact hnode c hc
  · rw [List.concat_eq_append, ← List.cons_append, ← List.append_assoc] at heq
    obtain ⟨hfront, -⟩ := List.append_inj' heq rfl
    exact h l₁ a l₂ hfront c hc

theorem Closed.mem {order : List α} (h : Closed children order) {a c : α} (ha : a ∈ order) (hc : c ∈ children a) :
    c ∈ order := by
  obtain ⟨l₁, l₂, rfl⟩ := List.append_of_mem ha
  exact List.mem_append_left _ (h l₁ a l₂ rfl c hc)

theorem Closed.mem_of_reachable {order : List α} (h : Closed children order) {a c : α}
    (hc : ReflTransGen (Child children) c a) (ha : a ∈ order) : c ∈ order := by
  induction hc using ReflTransGen.head_induction_on with
  | refl => exact ha
  | head hchild _ ih => exact h.mem ih hchild

/-- No node has a later one as a child. -/
theorem Closed.pairwise {order : List α} (h : Closed children order) (hnodup : order.Nodup) :
    order.Pairwise fun x y => y ∉ children x := by
  rw [List.pairwise_iff_getElem]
  intro i j hi hj hij hchild
  have hsplit : order = order.take i ++ order[i] :: order.drop (i + 1) := by
    rw [List.cons_getElem_drop_succ, List.take_append_drop]
  obtain ⟨k, hk, heq⟩ := List.mem_iff_getElem.mp (h _ _ _ hsplit _ hchild)
  rw [List.getElem_take] at heq
  rw [List.length_take] at hk
  have hkj := (List.Nodup.getElem_inj_iff hnodup).mp heq
  omega

theorem not_below_self {a : α} (h : Acc (Child children) a) : ¬ TransGen (Child children) a a := by
  have hacc := h.transGen
  clear h
  intro hself
  induction hacc with
  | intro b _ ih => exact ih b hself hself

theorem reachable_mem {nodes : List α} (hclosed : ∀ n ∈ nodes, ∀ c ∈ children n, c ∈ nodes) {x node : α}
    (hnode : node ∈ nodes) (h : ReflTransGen (Child children) x node) : x ∈ nodes := by
  induction h using ReflTransGen.head_induction_on with
  | refl => exact hnode
  | head hchild _ ih => exact hclosed _ ih _ hchild

/-- Between two visits: what is seen has been left or is on the way to here. -/
structure Visited (children : α → List α) (way : List α) (s : List α × List α) : Prop where
  seen_iff : ∀ x, x ∈ s.1 ↔ x ∈ s.2 ∨ x ∈ way
  nodup : s.2.Nodup
  closed : Closed children s.2
  fresh : ∀ x ∈ way, x ∉ s.2

/-- What a visit of a node adds: the node itself, and nodes below it. -/
structure Leaves (children : α → List α) (node : α) (s s' : List α × List α) : Prop where
  grows : s.2 ⊆ s'.2
  below : ∀ x ∈ s'.2, x ∈ s.2 ∨ ReflTransGen (Child children) x node

theorem Leaves.refl {node : α} {s : List α × List α} : Leaves children node s s := ⟨List.Subset.refl _, fun _ hx => Or.inl hx⟩

theorem Leaves.trans {node : α} {s s' s'' : List α × List α} (h : Leaves children node s s')
    (h' : Leaves children node s' s'') : Leaves children node s s'' :=
  ⟨List.Subset.trans h.grows h'.grows, fun x hx => (h'.below x hx).elim (h.below x) Or.inr⟩

theorem Leaves.of_child {node child : α} {s s' : List α × List α} (hchild : child ∈ children node)
    (h : Leaves children child s s') : Leaves children node s s' :=
  ⟨h.grows, fun x hx => (h.below x hx).imp id fun hbelow => hbelow.tail hchild⟩

end Order

variable [DecidableEq α] {children : α → List α}

/-! ### Cycles -/

/-- No path from the node goes round. -/
theorem acc_of_onCycle : ∀ {fuel : ℕ} {node : α} {seen : List α}, onCycle children fuel node seen = none →
    Acc (Child children) node
  | 0, node, seen, h => nomatch h
  | fuel + 1, node, seen, h => by
    rw [onCycle] at h
    split_ifs at h with hseen
    refine Acc.intro node fun child hchild => acc_of_onCycle (List.findSome?_eq_none_iff.mp h child hchild)

theorem onCycle_of_acc {nodes : List α} (hclosed : ∀ n ∈ nodes, ∀ c ∈ children n, c ∈ nodes) :
    ∀ {fuel : ℕ} {node : α} {seen : List α}, node ∈ nodes → Acc (Child children) node → seen.Nodup → seen ⊆ nodes →
      (∀ a ∈ seen, TransGen (Child children) node a) → nodes.length < fuel + seen.length →
      onCycle children fuel node seen = none
  | 0, node, seen, hnode, hacc, hnodup, hsub, habove, hlen => by
    have hle := (List.Subperm.length_le (hnodup.subperm hsub))
    omega
  | fuel + 1, node, seen, hnode, hacc, hnodup, hsub, habove, hlen => by
    have hnew : node ∉ seen := fun hmem => not_below_self hacc (habove node hmem)
    rw [onCycle, if_neg hnew, List.findSome?_eq_none_iff]
    intro child hchild
    refine onCycle_of_acc hclosed (hclosed node hnode child hchild) (hacc.inv hchild) ?_ ?_ ?_ ?_
    · exact List.nodup_append.mpr ⟨hnodup, List.nodup_singleton _, fun a ha b hb heq => by
        rw [heq, List.mem_singleton.mp hb] at ha
        exact hnew ha⟩
    · exact List.append_subset.mpr ⟨hsub, List.cons_subset.mpr ⟨hnode, List.nil_subset _⟩⟩
    · intro a ha
      rcases List.mem_append.mp ha with ha | ha
      · exact TransGen.head hchild (habove a ha)
      · rw [List.mem_singleton.mp ha]
        exact TransGen.single hchild
    · rw [List.length_append, List.length_singleton]
      omega

/-- The search finds no cycle if and only if there is none. -/
theorem acyclic_iff {nodes : List α} (hclosed : ∀ n ∈ nodes, ∀ c ∈ children n, c ∈ nodes) :
    (∀ n ∈ nodes, onCycle children (nodes.length + 1) n [] = none) ↔ ∀ n ∈ nodes, Acc (Child children) n := by
  constructor
  · exact fun h n hn => acc_of_onCycle (h n hn)
  · intro h n hn
    refine onCycle_of_acc hclosed hn (h n hn) List.nodup_nil (List.nil_subset _) ?_ (Nat.lt_succ_self _)
    exact fun a ha => absurd ha List.not_mem_nil

/-! ### The order of leaving -/

/-- The nodes that are not seen yet. -/
def unseen (nodes seen : List α) : ℕ := (nodes.toFinset \ seen.toFinset).card

theorem unseen_lt {nodes seen seen' : List α} {node : α} (hnode : node ∈ nodes) (hnew : node ∉ seen)
    (hsub : seen ⊆ seen') (hseen : node ∈ seen') : unseen nodes seen' < unseen nodes seen := by
  refine Finset.card_lt_card (Finset.ssubset_iff_subset_ne.mpr ⟨?_, fun heq => ?_⟩)
  · intro x hx
    simp only [Finset.mem_sdiff, List.mem_toFinset] at hx ⊢
    exact ⟨hx.1, fun hmem => hx.2 (hsub hmem)⟩
  · have hmem : node ∈ nodes.toFinset \ seen.toFinset := by simp [hnode, hnew]
    rw [← heq] at hmem
    simp [hseen] at hmem

theorem unseen_le {nodes seen seen' : List α} (hsub : seen ⊆ seen') : unseen nodes seen' ≤ unseen nodes seen := by
  refine Finset.card_le_card fun x hx => ?_
  simp only [Finset.mem_sdiff, List.mem_toFinset] at hx ⊢
  exact ⟨hx.1, fun hmem => hx.2 (hsub hmem)⟩

section Visit

variable {nodes : List α} (hclosed : ∀ n ∈ nodes, ∀ c ∈ children n, c ∈ nodes)
  (hacyclic : ∀ n ∈ nodes, Acc (Child children) n)

/-- What the visit of a node does. -/
def VisitSpec (children : α → List α) (nodes : List α) (fuel : ℕ) : Prop :=
  ∀ (node : α) (way : List α) (s : List α × List α), Visited children way s → node ∈ nodes → node ∉ s.1 →
    (∀ a ∈ way, TransGen (Child children) node a) → unseen nodes s.1 ≤ fuel →
    Visited children way (visit children fuel node s) ∧ Leaves children node s (visit children fuel node s) ∧
      node ∈ (visit children fuel node s).2

include hclosed hacyclic

/-- The children of a node, one after the other. -/
theorem visit_children {fuel : ℕ} (ih : VisitSpec children nodes fuel) {node : α} {way : List α} (hnode : node ∈ nodes)
    (hway : ∀ a ∈ way, TransGen (Child children) node a) : ∀ (cs : List α), (∀ c ∈ cs, c ∈ children node) →
      ∀ s : List α × List α, Visited children (node :: way) s → unseen nodes s.1 ≤ fuel →
        let s' := cs.foldl (fun s child => if child ∈ s.1 then s else visit children fuel child s) s
        Visited children (node :: way) s' ∧ Leaves children node s s' ∧ ∀ c ∈ cs, c ∈ s'.2
  | [], _, s, hs, _ => ⟨hs, Leaves.refl, fun c hc => absurd hc List.not_mem_nil⟩
  | c :: cs, hcs, s, hs, hfuel => by
    have hc : c ∈ children node := hcs c List.mem_cons_self
    have habove : ∀ a ∈ node :: way, TransGen (Child children) c a :=
      List.forall_mem_cons.mpr ⟨TransGen.single hc, fun a ha => TransGen.head hc (hway a ha)⟩
    -- a child that is seen already has been left: on the way to here it would close a cycle
    have hstep : ∃ t, (if c ∈ s.1 then s else visit children fuel c s) = t ∧ Visited children (node :: way) t ∧
        Leaves children node s t ∧ c ∈ t.2 := by
      refine ⟨_, rfl, ?_⟩
      split_ifs with hseen
      · refine ⟨hs, Leaves.refl, ((hs.seen_iff c).mp hseen).resolve_right fun hmem => ?_⟩
        exact not_below_self (hacyclic c (hclosed node hnode c hc)) (habove c hmem)
      · obtain ⟨hvisited, hleaves, hmem⟩ := ih c (node :: way) s hs (hclosed node hnode c hc) hseen habove hfuel
        exact ⟨hvisited, hleaves.of_child hc, hmem⟩
    obtain ⟨t, ht, hvisited, hleaves, hmem⟩ := hstep
    have hseen : s.1 ⊆ t.1 := fun x hx => (hvisited.seen_iff x).mpr
      (((hs.seen_iff x).mp hx).imp (fun hx => hleaves.grows hx) id)
    obtain ⟨hvisited', hleaves', hmem'⟩ := visit_children ih hnode hway cs (fun c hc => hcs c (List.mem_cons_of_mem _ hc)) t
      hvisited ((unseen_le hseen).trans hfuel)
    rw [List.foldl_cons, ht]
    exact ⟨hvisited', hleaves.trans hleaves', List.forall_mem_cons.mpr ⟨hleaves'.grows hmem, hmem'⟩⟩

theorem visit_spec : ∀ fuel : ℕ, VisitSpec children nodes fuel
  | 0 => by
    intro node way s _ hnode hnew _ hfuel
    have hlt : unseen nodes (node :: s.1) < unseen nodes s.1 :=
      unseen_lt hnode hnew (List.subset_cons_self _ _) List.mem_cons_self
    omega
  | fuel + 1 => by
    intro node way s hs hnode hnew hway hfuel
    have hlt : unseen nodes (node :: s.1) < unseen nodes s.1 :=
      unseen_lt hnode hnew (List.subset_cons_self _ _) List.mem_cons_self
    have hleft : node ∉ s.2 := fun hmem => hnew ((hs.seen_iff node).mpr (Or.inl hmem))
    have henter : Visited children (node :: way) (node :: s.1, s.2) := by
      refine ⟨fun x => ?_, hs.nodup, hs.closed, List.forall_mem_cons.mpr ⟨hleft, hs.fresh⟩⟩
      rw [List.mem_cons, List.mem_cons, hs.seen_iff]
      exact or_left_comm
    have hbound : unseen nodes (node :: s.1) ≤ fuel := by omega
    obtain ⟨hbelow, hleaves, hchildren⟩ := visit_children hclosed hacyclic (visit_spec fuel) hnode hway (children node)
      (fun _ hc => hc) _ henter hbound
    rw [visit]
    refine ⟨⟨fun x => ?_, ?_, hbelow.closed.concat hchildren, fun x hx hmem => ?_⟩, ⟨?_, fun x hx => ?_⟩, ?_⟩
    · rw [hbelow.seen_iff, List.mem_append, List.mem_singleton, List.mem_cons, or_assoc]
    · exact List.nodup_append.mpr ⟨hbelow.nodup, List.nodup_singleton _, fun a ha b hb heq => by
        rw [heq, List.mem_singleton.mp hb] at ha
        exact hbelow.fresh node List.mem_cons_self ha⟩
    · rcases List.mem_append.mp hmem with hmem | hmem
      · exact hbelow.fresh x (List.mem_cons_of_mem _ hx) hmem
      · rw [List.mem_singleton] at hmem
        exact not_below_self (hacyclic node hnode) (hway node (hmem ▸ hx))
    · exact fun x hx => List.mem_append_left _ (hleaves.grows hx)
    · rcases List.mem_append.mp hx with hx | hx
      · exact hleaves.below x hx
      · rw [List.mem_singleton.mp hx]
        exact Or.inr ReflTransGen.refl
    · exact List.mem_append_right _ (List.mem_singleton_self _)

/-- Every node is left once, after its children. -/
theorem postorder_spec : (postorder children nodes).Nodup ∧ Closed children (postorder children nodes) ∧
    ∀ x, x ∈ postorder children nodes ↔ x ∈ nodes := by
  have hrun : ∀ (ns : List α), ns ⊆ nodes → ∀ s : List α × List α, Visited children [] s → s.2 ⊆ nodes →
      let s' := ns.foldl (fun s node => if node ∈ s.1 then s else visit children nodes.length node s) s
      Visited children [] s' ∧ s'.2 ⊆ nodes ∧ s.2 ⊆ s'.2 ∧ ns ⊆ s'.2 := by
    intro ns
    induction ns with
    | nil => exact fun _ s hs hsub => ⟨hs, hsub, List.Subset.refl _, List.nil_subset _⟩
    | cons n ns ih =>
      intro hns s hs hsub
      have hn : n ∈ nodes := hns List.mem_cons_self
      have hstep : ∃ t, (if n ∈ s.1 then s else visit children nodes.length n s) = t ∧ Visited children [] t ∧
          t.2 ⊆ nodes ∧ s.2 ⊆ t.2 ∧ n ∈ t.2 := by
        refine ⟨_, rfl, ?_⟩
        split_ifs with hseen
        · exact ⟨hs, hsub, List.Subset.refl _, ((hs.seen_iff n).mp hseen).resolve_right List.not_mem_nil⟩
        · have hfuel : unseen nodes s.1 ≤ nodes.length :=
            (Finset.card_le_card Finset.sdiff_subset).trans (List.toFinset_card_le nodes)
          obtain ⟨hvisited, hleaves, hmem⟩ := visit_spec hclosed hacyclic _ n [] s hs hn hseen
            (fun a ha => absurd ha List.not_mem_nil) hfuel
          refine ⟨hvisited, fun x hx => ?_, hleaves.grows, hmem⟩
          rcases hleaves.below x hx with hx | hx
          · exact hsub hx
          · exact reachable_mem hclosed hn hx
      obtain ⟨t, ht, hvisited, htsub, hgrows, hmem⟩ := hstep
      obtain ⟨hvisited', hsub', hgrows', hall⟩ := ih (fun x hx => hns (List.mem_cons_of_mem _ hx)) t hvisited htsub
      rw [List.foldl_cons, ht]
      exact ⟨hvisited', hsub', List.Subset.trans hgrows hgrows', List.cons_subset.mpr ⟨hgrows' hmem, hall⟩⟩
  have hinit : Visited children [] (([], []) : List α × List α) :=
    ⟨by simp, List.nodup_nil, Closed.nil children, fun x hx => absurd hx List.not_mem_nil⟩
  obtain ⟨hvisited, hsub, -, hall⟩ := hrun nodes (List.Subset.refl _) _ hinit (List.nil_subset _)
  exact ⟨hvisited.nodup, hvisited.closed, fun x => ⟨fun hx => hsub hx, fun hx => hall hx⟩⟩

/-- From one node the search leaves exactly what can be reached from it. -/
theorem mem_reachable_iff {node x : α} (hnode : node ∈ nodes) :
    x ∈ (visit children nodes.length node ([], [])).2 ↔ ReflTransGen (Child children) x node := by
  have hinit : Visited children [] (([], []) : List α × List α) :=
    ⟨by simp, List.nodup_nil, Closed.nil children, fun x hx => absurd hx List.not_mem_nil⟩
  have hfuel : unseen nodes [] ≤ nodes.length :=
    (Finset.card_le_card Finset.sdiff_subset).trans (List.toFinset_card_le nodes)
  obtain ⟨hvisited, hleaves, hmem⟩ := visit_spec hclosed hacyclic _ node [] ([], []) hinit hnode List.not_mem_nil
    (fun a ha => absurd ha List.not_mem_nil) hfuel
  constructor
  · exact fun hx => (hleaves.below x hx).resolve_left List.not_mem_nil
  · exact fun hx => hvisited.closed.mem_of_reachable hx hmem

end Visit

end DepthFirst
