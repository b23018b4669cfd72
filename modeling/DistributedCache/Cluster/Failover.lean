import DistributedCache.Cluster.KeyValueMap

/-!
# Failover under fail-stop failures

On a fixed ring nodes die one after another: their heartbeats go stale between two calls, they
may stop answering, and they never come back. As long as the live nodes answer and the replica
write of a call takes effect before the next event, every live owner of a key holds exactly what
a plain map has for it, and the calls answer as the map does while one owner is alive.

## Main definitions

* `FailStop`, `FailStop.Step` : a cluster with its live nodes and the map of acknowledged writes.

## Main results

* `FailStop.failover_transparent` : failover is transparent under fail-stop failures.
-/

namespace DistributedCache

open Library DistributedCacheCluster

variable {V : Type*} {hashToInt : String → ℕ}

/-- A cluster with the nodes that are alive and the map of the acknowledged writes. -/
structure FailStop (V : Type*) where
  cluster : DistributedCacheCluster V
  alive : String → Bool
  map : KeyValueMap V

/-- A client call with the background steps up to the next event, a heartbeat, or the death of
nodes, which may then be out of reach. -/
inductive FailStopEvent (V : Type*)
  | call (clock : Clock) (op : ClientOp V) (background : List BackgroundStep)
  | heartbeat (clock : Clock) (nodeId : String)
  | death (alive reachable : String → Bool)

namespace FailStop

/-- The call meets a fixed liveness of the members, live members that answer, and room. -/
structure Serves (hashToInt : String → ℕ) (s : FailStop V) (clock : Clock) (op : ClientOp V) :
    Prop where
  steady : ∀ nodeId ∈ s.cluster.manager.nodes,
    s.cluster.manager.AliveThroughout clock nodeId (s.alive nodeId)
  answers : ∀ nodeId ∈ s.cluster.manager.nodes, s.alive nodeId = true →
    s.cluster.transport.Answers nodeId
  noEviction : s.cluster.NoEviction hashToInt (.call clock op.call)

/-- The steps of a history with fail-stop failures. -/
inductive Step (hashToInt : String → ℕ) : FailStop V → FailStopEvent V → FailStop V → Prop
  | call {s : FailStop V} {clock : Clock} {op : ClientOp V} {background : List BackgroundStep}
      {c : DistributedCacheCluster V} (hserves : s.Serves hashToInt clock op)
      (hrun : Run (WorksWell hashToInt) (s.cluster.serve hashToInt clock op.call).2 background c)
      (hdrained : c.replicaWrites = []) :
      Step hashToInt s (.call clock op background)
        ⟨c, s.alive, op.observe (s.cluster.serve hashToInt clock op.call).1 s.map⟩
  | heartbeat {s : FailStop V} (clock : Clock) (nodeId : String) :
      Step hashToInt s (.heartbeat clock nodeId)
        { s with cluster := (s.cluster.serve hashToInt clock (.heartbeat nodeId)).2 }
  | death {s : FailStop V} {alive reachable : String → Bool}
      (hfewer : ∀ nodeId, alive nodeId = true → s.alive nodeId = true) :
      Step hashToInt s (.death alive reachable)
        { s with
          cluster := { s.cluster with
            transport := { s.cluster.transport with reachable := reachable } }
          alive := alive }

/-- Any ring, empty stores and no background work. -/
structure Start (hashToInt : String → ℕ) (s : FailStop V) : Prop where
  manager : s.cluster.manager.Reachable hashToInt Set.univ
  stores : ∀ nodeId key, s.cluster.transport.lookup nodeId key = none
  quiescent : s.cluster.Quiescent
  map : s.map = fun _ => none

/-- Every live owner of a key holds what the map has for it, and there is no background work. -/
structure Mirrors (hashToInt : String → ℕ) (s : FailStop V) : Prop where
  coherent : s.cluster.manager.Coherent hashToInt
  noTtl : s.cluster.NoTtl
  quiescent : s.cluster.Quiescent
  lookup : ∀ key, ∀ node ∈ s.cluster.manager.ring.owners hashToInt key,
    s.alive node.nodeId = true →
      s.cluster.transport.lookup node.nodeId key = (s.map key).map CacheEntry.plain

variable {s s' : FailStop V}

theorem Start.mirrors (h : s.Start hashToInt) : s.Mirrors hashToInt where
  coherent := h.manager.coherent
  noTtl := h.quiescent.noTtl fun n k e he => by
    rw [h.stores] at he
    cases he
  quiescent := h.quiescent
  lookup key node _ _ := by rw [h.stores, h.map, Option.map_none]

/-- A call in a history is served as the map says. -/
theorem Mirrors.served (h : s.Mirrors hashToInt) {clock : Clock} {op : ClientOp V}
    (hserves : s.Serves hashToInt clock op) :
    ∃ r c, s.cluster.serve hashToInt clock op.call = (some r, c) ∧
      Served hashToInt s.alive s.map op s.cluster r c := by
  have hlive : ∀ node ∈ s.cluster.manager.liveOwners hashToInt s.alive op.key,
      node ∈ s.cluster.manager.ring.owners hashToInt op.key ∧ s.alive node.nodeId = true :=
    fun node hnode => List.mem_filter.mp hnode
  have hmember : ∀ node ∈ s.cluster.manager.ring.owners hashToInt op.key,
      node.nodeId ∈ s.cluster.manager.nodes := fun node hnode =>
    OrderedDict.mem_iff_exists_get?.mpr ⟨node, h.coherent.get?_nodes_of_mem_owners hnode⟩
  exact DistributedCacheCluster.served op h.noTtl h.quiescent.replicaWrites
    (fun node hnode => hserves.steady _ (hmember node hnode))
    (fun node hnode => hserves.answers _ (hmember node (hlive node hnode).1) (hlive node hnode).2)
    hserves.noEviction fun node hnode => h.lookup op.key node (hlive node hnode).1 (hlive node hnode).2

private theorem Mirrors.call (h : s.Mirrors hashToInt) {clock : Clock} {op : ClientOp V}
    {background : List BackgroundStep} {c : DistributedCacheCluster V}
    (hserves : s.Serves hashToInt clock op)
    (hrun : Run (WorksWell hashToInt) (s.cluster.serve hashToInt clock op.call).2 background c)
    (hdrained : c.replicaWrites = []) : Mirrors hashToInt
      ⟨c, s.alive, op.observe (s.cluster.serve hashToInt clock op.call).1 s.map⟩ := by
  obtain ⟨r, c₁, hserve, hserved⟩ := h.served hserves
  rw [hserve] at hrun ⊢
  have hdone : ∀ task ∈ c₁.rebalances, task.Done := by
    rw [hserved.rebalances]
    exact h.quiescent.rebalances
  have hanswers : ∀ w ∈ c₁.replicaWrites, c₁.transport.Answers w.node.nodeId := by
    intro w hw
    obtain ⟨howner, halive⟩ := List.mem_filter.mp (hserved.replicaTargets w hw).1
    have hmember := OrderedDict.mem_iff_exists_get?.mpr
      ⟨_, h.coherent.get?_nodes_of_mem_owners howner⟩
    exact hserved.sameNodes.answers_iff.mpr (hserves.answers _ hmember halive)
  obtain ⟨hmanager, hsame, hnoTtl, hrebalances, hlookup⟩ :=
    drained hrun hserved.noTtl hdone hserved.replicaWrites hanswers hdrained
  have hheartbeat : HeartbeatOnly s.cluster.manager c.manager := hmanager ▸ hserved.manager
  refine ⟨hheartbeat.coherent h.coherent, hnoTtl, ⟨hdrained, by rw [hrebalances]; exact hdone⟩, ?_⟩
  intro key node hnode halive
  dsimp only at hnode halive ⊢
  rw [hheartbeat.ring] at hnode
  rw [hlookup, hserved.landed]
  by_cases hkey : key = op.key
  · subst hkey
    have hmem : node ∈ s.cluster.manager.liveOwners hashToInt s.alive op.key :=
      List.mem_filter.mpr ⟨hnode, halive⟩
    rw [if_pos ⟨rfl, List.mem_map_of_mem hmem⟩,
      ClientOp.observe_of_is (hserved.answer (List.ne_nil_of_mem hmem)), ClientOp.run,
      Function.update_self]
  · rw [if_neg fun hcell => hkey hcell.1, h.lookup key node hnode halive,
      ClientOp.observe_of_ne hkey]

private theorem Mirrors.heartbeat (h : s.Mirrors hashToInt) (clock : Clock) (nodeId : String) :
    Mirrors hashToInt
      { s with cluster := (s.cluster.serve hashToInt clock (.heartbeat nodeId)).2 } := by
  rw [serve, DistributedCacheCluster.heartbeat]
  cases s.cluster.manager.getNode nodeId with
  | none => exact h
  | some node =>
    dsimp only
    by_cases hanswers : s.cluster.transport.Answers node.nodeId
    · obtain ⟨transport, hbeat, hkeeps⟩ := NodeTransport.heartbeat_eq hanswers (clock 0)
      rw [hbeat]
      refine ⟨h.coherent.recordHeartbeat _ _, ⟨h.noTtl.transport.keeps hkeeps,
        h.noTtl.replicaWrites, h.noTtl.rebalances⟩, ⟨h.quiescent.replicaWrites,
        h.quiescent.rebalances⟩, fun key x hx halive => ?_⟩
      rw [ClusterManager.ring_recordHeartbeat] at hx
      exact (hkeeps.lookup x.nodeId key).trans (h.lookup key x hx halive)
    · rw [NodeTransport.heartbeat, NodeTransport.runtime?_eq_none hanswers, Option.map_none]
      exact h

theorem Mirrors.step (h : s.Mirrors hashToInt) {e : FailStopEvent V}
    (hstep : Step hashToInt s e s') : s'.Mirrors hashToInt := by
  cases hstep with
  | call hserves hrun hdrained => exact h.call hserves hrun hdrained
  | heartbeat clock nodeId => exact h.heartbeat clock nodeId
  | death hfewer =>
    exact ⟨h.coherent, ⟨h.noTtl.transport, h.noTtl.replicaWrites, h.noTtl.rebalances⟩,
      ⟨h.quiescent.replicaWrites, h.quiescent.rebalances⟩,
      fun key node hnode halive => h.lookup key node hnode (hfewer _ halive)⟩

/-- **Failover is transparent under fail-stop failures.** After every history of puts, gets,
deletes, heartbeats and node deaths from empty stores, every live owner of a key holds exactly
the last written value, or nothing if the key was deleted or never put. So the next call answers
as the map of acknowledged writes does as long as one of the owners of its key is alive, and it
answers 503 exactly when none is. -/
theorem failover_transparent {start : FailStop V} {events : List (FailStopEvent V)}
    (hstart : start.Start hashToInt) (hrun : Run (Step hashToInt) start events s) :
    (∀ key, ∀ node ∈ s.cluster.manager.ring.owners hashToInt key, s.alive node.nodeId = true →
      s.cluster.transport.lookup node.nodeId key = (s.map key).map CacheEntry.plain) ∧
    ∀ clock op, s.Serves hashToInt clock op →
      ∃ r, (s.cluster.serve hashToInt clock op.call).1 = some r ∧
        (r.statusCode = 503 ↔ s.cluster.manager.liveOwners hashToInt s.alive op.key = []) ∧
        (s.cluster.manager.liveOwners hashToInt s.alive op.key ≠ [] →
          r.Is (op.answer s.map)) := by
  have hmirrors : s.Mirrors hashToInt :=
    hrun.invariant (fun _ _ _ h hstep => h.step hstep) hstart.mirrors
  refine ⟨hmirrors.lookup, fun clock op hserves => ?_⟩
  obtain ⟨r, c, hserve, hserved⟩ := hmirrors.served hserves
  refine ⟨r, by rw [hserve], ⟨fun hcode => ?_, fun hdead => (hserved.unavailable hdead).2⟩,
    hserved.answer⟩
  by_contra hlive
  exact Response.statusCode_ne_of_is (hserved.answer hlive) hcode

/-- `failover_transparent` where the primary of a key dies after a put: the replica answers. -/
theorem failover_transparent_primary_dies :
    let start : FailStop ℕ := ⟨sampleCluster ["a", "b"], fun _ => true, fun _ => none⟩
    ∃ s, Run (Step sampleHash) start
        [.call (fun _ => 0) (.put "k" 1) [.replicate 0 (fun _ => 0) .carriedOut],
          .heartbeat (fun _ => 9) "b", .death (fun nodeId => nodeId = "b") fun _ => true] s ∧
      ∃ r, (s.cluster.serve sampleHash (fun _ => 10) (.get "k")).1 = some r ∧ r.Is (.found 1) := by
  intro start
  let die : DistributedCacheCluster ℕ → DistributedCacheCluster ℕ := fun c =>
    { (c.serve sampleHash (fun _ => 9) (.heartbeat "b")).2 with
      transport := { (c.serve sampleHash (fun _ => 9) (.heartbeat "b")).2.transport with
        reachable := fun _ => true } }
  obtain ⟨c, hrun, hc⟩ := exists_run sampleHash
    (start.cluster.serve sampleHash (fun _ => 0) (.put "k" (some 1) none)).2
    [.replicate 0 (fun _ => 0) .carriedOut]
    (fun c => decide (c.replicaWrites = [] ∧ (die c).manager.nodes.keys = ["a", "b"] ∧
      (∀ nodeId ∈ ["a", "b"], (die c).manager.isAlive 10 nodeId = decide (nodeId = "b") ∧
        (die c).transport.Answers nodeId) ∧
      (die c).NoEviction sampleHash (.call (fun _ => 10) (.get "k")) ∧
      (die c).manager.liveOwners sampleHash (fun nodeId => nodeId = "b") "k" ≠ []))
    (by decide +kernel)
  obtain ⟨hdrained, hnodes, hmembers, hroom, hlive⟩ := of_decide_eq_true hc
  have hput : start.Serves sampleHash (fun _ => 0) (.put "k" 1) := by
    have hmembers : ∀ nodeId ∈ ["a", "b"], start.cluster.manager.isAlive 0 nodeId = true ∧
        start.cluster.transport.Answers nodeId := by decide +kernel
    exact ⟨fun nodeId hn _ => (hmembers nodeId hn).1, fun nodeId hn _ => (hmembers nodeId hn).2,
      by decide +kernel⟩
  have hmem : ∀ nodeId ∈ (die c).manager.nodes, nodeId ∈ ["a", "b"] := fun nodeId hn => by
    rw [← hnodes]
    exact hn
  have hrun' : Run (Step sampleHash) start
      [.call (fun _ => 0) (.put "k" 1) [.replicate 0 (fun _ => 0) .carriedOut],
        .heartbeat (fun _ => 9) "b", .death (fun nodeId => nodeId = "b") fun _ => true]
      ⟨die c, fun nodeId => nodeId = "b", _⟩ :=
    .cons (.call hput hrun hdrained) (.cons (.heartbeat (fun _ => 9) "b")
      (.cons (.death fun _ _ => rfl) (.nil _)))
  have hstart : start.Start sampleHash :=
    ⟨sampleCluster_reachable _, sampleCluster_lookup _, sampleCluster_quiescent _, rfl⟩
  have hmap : (ClientOp.put "k" 1).observe
      (start.cluster.serve sampleHash (fun _ => 0) (.put "k" (some 1) none)).1 start.map "k" =
        some 1 := by decide +kernel
  refine ⟨_, hrun', ?_⟩
  obtain ⟨r, hr, -, hanswer⟩ := (failover_transparent hstart hrun').2 (fun _ => 10) (.get "k")
    ⟨fun nodeId hn _ => (hmembers nodeId (hmem nodeId hn)).1,
      fun nodeId hn _ => (hmembers nodeId (hmem nodeId hn)).2, hroom⟩
  have hfound : r.Is (((ClientOp.put "k" 1).observe (start.cluster.serve sampleHash (fun _ => 0)
      (.put "k" (some 1) none)).1 start.map "k").elim .missing .found) := hanswer hlive
  rw [hmap] at hfound
  exact ⟨r, hr, hfound⟩

end FailStop

end DistributedCache
