/-
# One default source, one active server

The bucket of sources has at most one default and the bucket of servers at most
one active server, whatever calls of the two stores run at the same time: every
single transaction sees to it.

Key definitions: `FlagCall`, `FlagStep`.
Key theorems: `flagCall_throughout` (what each transaction does),
`one_default_one_active`.
-/
import Chronograf.Bolt.Servers
import Chronograf.Bolt.Sources
import Chronograf.Lib.Interleaving

namespace Chronograf
namespace Bolt

open Bucket (AtMostOne)

/-- A call that writes sources or servers. -/
inductive FlagCall
  | addSource (src : Source)
  | updateSource (src : Source)
  | deleteSource (src : Source)
  | addServer (src : Server)
  | updateServer (src : Server)
  | deleteServer (src : Server)

/-- The transactions of the call. -/
def FlagCall.program (ctx : Context) : FlagCall → Tx Error Db Unit
  | .addSource src => do let _ ← SourcesStore.add ctx src; pure ()
  | .updateSource src => SourcesStore.update ctx src
  | .deleteSource src => SourcesStore.delete ctx src
  | .addServer src => do let _ ← ServersStore.add ctx src; pure ()
  | .updateServer src => ServersStore.update ctx src
  | .deleteServer src => ServersStore.delete ctx src

/-- What a transaction of these calls does to the flags: there is still at most
one of each, and when a default source goes another one is the default, if there
is any. -/
structure FlagStep (db db' : Db) : Prop where
  default : db.sources.AtMostOne Source.default → db'.sources.AtMostOne Source.default
  active : db.servers.AtMostOne Server.active → db'.servers.AtMostOne Server.active
  reelected : ∀ s ∈ db.sources.recs, s.default → db'.sources.get s.id = none → db'.sources.recs ≠ [] →
    ∃ s' ∈ db'.sources.recs, s'.default

namespace FlagStep

variable {db : Db}

/-- The sources stay as they are. -/
theorem of_servers {b : Bucket Server} (hb : db.servers.AtMostOne Server.active → b.AtMostOne Server.active) :
    FlagStep db { db with servers := b } where
  default h := h
  active := hb
  reelected s hs _ hgone := by
    rw [← key_source, Bucket.get_of_mem hs] at hgone
    cases hgone

/-- The servers stay as they are and no source goes. -/
theorem of_sources {b : Bucket Source} (hb : db.sources.AtMostOne Source.default → b.AtMostOne Source.default)
    (hkept : ∀ k, db.sources.get k ≠ none → b.get k ≠ none) : FlagStep db { db with sources := b } where
  default := hb
  active h := h
  reelected s hs _ hgone := by
    refine absurd hgone (hkept s.id ?_)
    rw [← key_source, Bucket.get_of_mem hs]
    exact Option.some_ne_none s

instance : Std.Refl FlagStep where
  refl _ := of_sources (fun h => h) fun _ h => h

end FlagStep

/-! ### The transactions -/

section Steps

variable {db : Db}

/-- A source is stored, and no other one is gone. -/
theorem flagStep_of_displaced {b : Bucket Source} (src : Source)
    (h : ∀ k, b.get k = if k = src.id then some src else SourcesStore.displaced src (db.sources.get k)) :
    FlagStep db { db with sources := b } := by
  have hcleared : ∀ s : Source, ¬ (SourcesStore.cleared s).default := fun s => by simp [SourcesStore.cleared]
  refine .of_sources (fun hb => hb.displaced hcleared h) fun k hk => ?_
  rw [h]
  split
  · exact Option.some_ne_none src
  · unfold SourcesStore.displaced
    split
    · exact mt Option.map_eq_none_iff.mp hk
    · exact hk

theorem flagStep_addSource (src : Source) :
    FlagStep db { db with sources := (SourcesStore.txAdd db.sources src).2 } :=
  flagStep_of_displaced { src with id := ofSeq (db.sources.seq + 1) } fun _ => SourcesStore.get_txAdd

theorem flagStep_updateSource {src : Source} {b : Bucket Source} (h : SourcesStore.txUpdate db.sources src = .ok b) :
    FlagStep db { db with sources := b } := by
  cases hget : db.sources.get src.id with
  | none =>
    rw [SourcesStore.txUpdate_of_none hget] at h
    cases h
  | some target =>
    obtain ⟨b', hb', hspec⟩ := SourcesStore.txUpdate_of_some hget
    rw [h] at hb'
    obtain rfl := Except.ok.inj hb'
    exact flagStep_of_displaced src hspec

/-- A source that is not the default goes. -/
theorem flagStep_deleteSource_of_not_default {target : Source} {k : ℤ} (hget : db.sources.get k = some target)
    (hd : target.default = false) : FlagStep db { db with sources := db.sources.delete k } where
  default h := h.delete
  active h := h
  reelected s hs hdef hgone := by
    have hgone' : (db.sources.delete k).get s.id = none := hgone
    have hstored : db.sources.get s.id = some s := Bucket.get_of_mem hs
    rw [Bucket.get_delete] at hgone'
    split at hgone'
    · -- it is the one that goes, and it had no flag
      rename_i hk
      rw [hk, hget, Option.some.injEq] at hstored
      rw [← hstored, hd] at hdef
      cases hdef
    · rw [hstored] at hgone'
      cases hgone'

/-- The default source goes, and its successor becomes the default. -/
theorem flagStep_deleteSource_of_default {b : Bucket Source} {k : ℤ} (hb : ∀ k', b.get k' =
    if k' = k then none
    else (db.sources.get k').map fun s => { s with default := SourcesStore.successor db.sources k = some s }) :
    FlagStep db { db with sources := b } := by
  -- whoever is stored afterwards, and who is the default among them
  have hstored : ∀ x ∈ b.recs, ∃ s ∈ db.sources.recs, s.id ≠ k ∧
      x = { s with default := SourcesStore.successor db.sources k = some s } := by
    intro x hx
    have hget := Bucket.get_of_mem hx
    rw [hb] at hget
    split at hget
    · cases hget
    · rename_i hne
      obtain ⟨s, hs, rfl⟩ := Option.map_eq_some_iff.mp hget
      exact ⟨s, (Bucket.get_some hs).1, hne, rfl⟩
  refine ⟨fun _ x hx y hy hpx hpy => ?_, fun h => h, fun _ _ _ _ hne => ?_⟩
  · obtain ⟨s, -, -, rfl⟩ := hstored x hx
    obtain ⟨s', -, -, rfl⟩ := hstored y hy
    have hss' : some s = some s' := (of_decide_eq_true hpx).symm.trans (of_decide_eq_true hpy)
    rw [Option.some.inj hss']
  · obtain ⟨x, hx⟩ := List.exists_mem_of_ne_nil _ hne
    obtain ⟨s, hs, hsk, -⟩ := hstored x hx
    have hsome : (SourcesStore.successor db.sources k).isSome := by
      unfold SourcesStore.successor
      rw [List.find?_isSome]
      exact ⟨s, hs, by simpa using hsk⟩
    obtain ⟨o, ho⟩ := Option.isSome_iff_exists.mp hsome
    have hok : o.id ≠ k := by simpa using List.find?_some ho
    have hget : b.get o.id = some { o with default := true } := by
      have hmem : db.sources.get o.id = some o := Bucket.get_of_mem (List.mem_of_find?_eq_some ho)
      rw [hb, if_neg hok, hmem]
      simp [ho]
    exact ⟨_, (Bucket.get_some hget).1, rfl⟩

theorem flagStep_deleteSource (ctx : Context) (src : Source) {db' : Db}
    (h : (SourcesStore.delete ctx src).run db = (.ok (), db')) : FlagStep db db' := by
  cases hget : db.sources.get src.id with
  | none =>
    rw [SourcesStore.run_delete_of_none ctx hget] at h
    cases h
  | some target =>
    cases hd : target.default with
    | false =>
      rw [SourcesStore.run_delete_of_not_default ctx hget hd] at h
      obtain rfl := (Prod.mk.inj h).2
      exact flagStep_deleteSource_of_not_default hget hd
    | true =>
      obtain ⟨b, hrun, hb⟩ := SourcesStore.run_delete_of_default ctx hget hd
      rw [h] at hrun
      obtain rfl := (Prod.mk.inj hrun).2
      exact flagStep_deleteSource_of_default hb

theorem inactive_not_active (s : Server) : ¬ (ServersStore.inactive s).active := by simp [ServersStore.inactive]

theorem flagStep_addServer (src : Server) :
    FlagStep db { db with servers := (ServersStore.txAdd db.servers src).2 } := by
  have hget : ∀ k, (ServersStore.txAdd db.servers src).2.get k =
      if k = key { src with id := ofSeq (db.servers.seq + 1), active := true } then
        some { src with id := ofSeq (db.servers.seq + 1), active := true }
      else if (true : Bool) then (db.servers.get k).map ServersStore.inactive else db.servers.get k :=
    fun _ => ServersStore.get_txAdd
  exact .of_servers fun h => h.displaced inactive_not_active hget

theorem flagStep_updateServer {src : Server} {b : Bucket Server} (h : ServersStore.txUpdate db.servers src = .ok b) :
    FlagStep db { db with servers := b } := by
  cases hget : db.servers.get src.id with
  | none =>
    rw [ServersStore.txUpdate_of_none hget] at h
    cases h
  | some target =>
    obtain ⟨b', hb', hspec⟩ := ServersStore.txUpdate_of_some hget
    rw [h] at hb'
    obtain rfl := Except.ok.inj hb'
    exact .of_servers fun hb => hb.displaced inactive_not_active hspec

end Steps

/-- Each transaction of each call. -/
theorem flagCall_throughout (ctx : Context) : ∀ call : FlagCall, Tx.Throughout FlagStep (call.program ctx)
  | .addSource src => by
    refine .bind (.bind .view fun srcs => .update ?_) fun _ => .pure
    intro db a db' h
    obtain ⟨-, rfl⟩ := Prod.mk.inj (Except.ok.inj h)
    exact flagStep_addSource _
  | .updateSource src => by
    refine .update fun db a db' h => ?_
    rcases hb : SourcesStore.txUpdate db.sources src with e | b
    · simp [hb, bind, Except.bind] at h
    · simp only [hb, bind, Except.bind, Except.ok.injEq, Prod.mk.injEq] at h
      obtain ⟨-, rfl⟩ := h
      exact flagStep_updateSource hb
  | .deleteSource src => by
    refine .update fun db a db' h => ?_
    exact flagStep_deleteSource ctx src (Tx.run_update_ok h)
  | .addServer src => by
    refine .bind ?_ fun _ => .pure
    unfold ServersStore.add Db.update
    refine .update ?_
    intro db a db' h
    obtain ⟨-, rfl⟩ := Prod.mk.inj (Except.ok.inj h)
    exact flagStep_addServer _
  | .updateServer src => by
    refine .update fun db a db' h => ?_
    rcases hb : ServersStore.txUpdate db.servers src with e | b
    · simp [hb, bind, Except.bind] at h
    · simp only [hb, bind, Except.bind, Except.ok.injEq, Prod.mk.injEq] at h
      obtain ⟨-, rfl⟩ := h
      exact flagStep_updateServer hb
  | .deleteServer src => by
    show Tx.Throughout FlagStep (ServersStore.delete ctx src)
    unfold ServersStore.delete Db.update
    refine .update ?_
    intro db a db' h
    obtain ⟨-, rfl⟩ := Prod.mk.inj (Except.ok.inj h)
    exact .of_servers fun h => h.delete

/-! ### Runs -/

/-- Of any number of calls on empty buckets of sources and servers, their
transactions interleaved: at most one source is the default and at most one
server active, and after a transaction that takes the default source and leaves
others exactly one of them is the default. -/
theorem one_default_one_active {ι : Type} [DecidableEq ι] (calls : ι → FlagCall) (ctxs : ι → Context) (db : Db)
    (sched : List ι) :
    let c : Tx.Config ι Error Db Unit :=
      ⟨fun i => (calls i).program (ctxs i), { db with sources := .empty, servers := .empty }⟩
    (c.run sched).store.sources.AtMostOne Source.default ∧ (c.run sched).store.servers.AtMostOne Server.active ∧
      ∀ i, ∀ s ∈ (c.run sched).store.sources.recs, s.default →
        (c.run (sched ++ [i])).store.sources.get s.id = none → (c.run (sched ++ [i])).store.sources.recs ≠ [] →
        ∃ s' ∈ (c.run (sched ++ [i])).store.sources.recs, s'.default ∧
          ∀ x ∈ (c.run (sched ++ [i])).store.sources.recs, x.default → x = s' := by
  intro c
  have hthroughout : ∀ i, Tx.Throughout FlagStep (c.procs i) := fun i => flagCall_throughout (ctxs i) (calls i)
  have hdefault : ∀ sched, (c.run sched).store.sources.AtMostOne Source.default := fun sched =>
    Tx.Config.run_keeps (fun _ _ h => h.default) sched hthroughout Bucket.atMostOne_empty
  have hactive : (c.run sched).store.servers.AtMostOne Server.active :=
    Tx.Config.run_keeps (fun _ _ h => h.active) sched hthroughout Bucket.atMostOne_empty
  refine ⟨hdefault sched, hactive, fun i s hs hd hgone hrest => ?_⟩
  have hstep := (Tx.Config.step_throughout (Tx.Config.run_throughout sched hthroughout) i).1
  rw [← Tx.Config.run_append_step] at hstep
  obtain ⟨s', hs', hd'⟩ := hstep.reelected s hs hd hgone hrest
  exact ⟨s', hs', hd', fun x hx hdx => hdefault _ x hx s' hs' hdx hd'⟩

end Bolt
end Chronograf
