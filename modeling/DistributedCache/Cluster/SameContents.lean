import DistributedCache.Cluster.History
import DistributedCache.Cluster.RingHistory

/-!
# Clusters with the same members hold the same

What the members hold depends on the members and on the acknowledged calls, not on the way the
cluster came to it: nodes that joined one after another hold what they would hold if all had been
there from the beginning, and a member that leaves and joins again finds its old copies put back.

## Main results

* `ConsistentHashRing.owners_eq_of_nodes` : rings with the same members have the same owners.
* `Observed.contents_forget_history` : histories that end with the same members and the same map.
-/

namespace DistributedCache

open Library DistributedCacheCluster

variable {V : Type*} {hashToInt : String → ℕ} {ids : Set String}

/-- Rings with the same members have the same owners. -/
theorem ConsistentHashRing.owners_eq_of_nodes {r s : ConsistentHashRing}
    (hr : r.FullyPlaced hashToInt) (hs : s.FullyPlaced hashToInt) (hr' : r.WellPlaced hashToInt)
    (hs' : s.WellPlaced hashToInt) (hnodes : ∀ nodeId, r.nodes.get? nodeId = s.nodes.get? nodeId)
    (hreplicas : r.replicas = s.replicas) (key : String) :
    r.owners hashToInt key = s.owners hashToInt key := by
  have hvirtual : r.virtualNodes = s.virtualNodes := by
    refine virtualNodes_eq_of_mem (pairwise_virtualNodes _) fun p => ?_
    rw [mem_virtualNodes, hs.get?_ring_iff hs', hr.get?_ring_iff hr', hnodes, hreplicas]
  rw [owners, owners, ownerPair_congr hashToInt (clockwise_congr hvirtual key)]

namespace Observed

variable {x y : Observed V} {keys keys' : Finset String}

theorem IsMap.owners_eq (hx : x.IsMap hashToInt ids keys) (hy : y.IsMap hashToInt ids keys')
    (hnodes : ∀ nodeId, x.cluster.manager.nodes.get? nodeId = y.cluster.manager.nodes.get? nodeId)
    (hreplicas : x.cluster.manager.ring.replicas = y.cluster.manager.ring.replicas)
    (key : String) :
    x.cluster.manager.ring.owners hashToInt key = y.cluster.manager.ring.owners hashToInt key := by
  have hcoherent := hx.rest.manager.coherent
  have hcoherent' := hy.rest.manager.coherent
  refine ConsistentHashRing.owners_eq_of_nodes (hx.rest.manager.fullyPlaced hx.noCollision)
    (hy.rest.manager.fullyPlaced hy.noCollision) hcoherent.wellPlaced hcoherent'.wellPlaced
    (fun nodeId => ?_) hreplicas key
  rw [hcoherent.nodes_eq, hcoherent'.nodes_eq, hnodes]

/-- **The contents forget the history.** Two sequential histories of client calls and topology
changes, on clusters that began empty, end with the same members and with the same value for every
key. Then every key has the same owners in both, and every member holds the same entries. -/
theorem contents_forget_history {start start' : Observed V}
    {events events' : List (HistoryEvent V)} (hstart : start.Fresh hashToInt ids keys)
    (hstart' : start'.Fresh hashToInt ids keys')
    (hcf : NoCollision hashToInt start.cluster.manager.ring.replicas ids)
    (hcf' : NoCollision hashToInt start'.cluster.manager.ring.replicas ids)
    (hrun : Run (Sequential hashToInt ids (UsesKeys keys)) start events x)
    (hrun' : Run (Sequential hashToInt ids (UsesKeys keys')) start' events' y)
    (hreplicas : x.cluster.manager.ring.replicas = y.cluster.manager.ring.replicas)
    (hnodes : ∀ nodeId, x.cluster.manager.nodes.get? nodeId = y.cluster.manager.nodes.get? nodeId)
    (hmap : ∀ key, events.foldl HistoryEvent.run (fun _ => none) key =
      events'.foldl HistoryEvent.run (fun _ => none) key) :
    (∀ key, x.cluster.manager.ring.owners hashToInt key =
      y.cluster.manager.ring.owners hashToInt key) ∧
    ∀ nodeId ∈ x.cluster.manager.nodes, ∀ key,
      x.cluster.transport.lookup nodeId key = y.cluster.transport.lookup nodeId key := by
  obtain ⟨hx, hxmap⟩ := (hstart.isMap hcf).run hrun
  obtain ⟨hy, hymap⟩ := (hstart'.isMap hcf').run hrun'
  have howners := hx.owners_eq hy hnodes hreplicas
  refine ⟨howners, fun nodeId hn key => ?_⟩
  have hn' : nodeId ∈ y.cluster.manager.nodes := by
    obtain ⟨node, hnode⟩ := OrderedDict.mem_iff_exists_get?.mp hn
    exact OrderedDict.mem_iff_exists_get?.mpr ⟨node, (hnodes nodeId).symm.trans hnode⟩
  rw [(hx.mirrors key).placed nodeId hn, (hy.mirrors key).placed nodeId hn',
    ConsistentHashRing.ownerIds, howners key, ← ConsistentHashRing.ownerIds, hxmap, hymap,
    hstart.map, hstart'.map, hmap key]

/-! ### Two small histories -/

private theorem sampleFresh (members : List String)
    (h : ∀ nodeId ∈ members, nodeId ∈ ["a", "b", "n"]) :
    Fresh sampleHash {"m", "n", "a", "b", "c"} {"k"} ⟨sampleHolding members [], fun _ => none⟩ := by
  refine ⟨sampleHolding_atRest _ _ fun nodeId hn => ?_, fun nodeId _ key => ?_,
    fun nodeId _ capacity hcapacity => ?_, rfl⟩
  · have hmem := h nodeId hn
    simp only [List.mem_cons, List.not_mem_nil, or_false] at hmem
    rcases hmem with rfl | rfl | rfl <;> simp
  · rw [sampleHolding_lookup, if_neg fun h => List.not_mem_nil h.1]
  · change (if nodeId ∈ members then some (sampleRuntime nodeId) else none).map
      (fun rt => rt.store.maxItems) = some capacity at hcapacity
    split_ifs at hcapacity
    · obtain rfl := Option.some.inj hcapacity
      exact show 1 ≤ 1024 by decide
    · cases hcapacity

/-- The put of a key, with its replica write. -/
private def samplePutEvent : HistoryEvent ℕ :=
  .client (fun _ => 0) (.put "k" 1) [.replicate 0 (fun _ => 0) .carriedOut]

/-- The steps that move a key to a third node. -/
private def sampleMoves : List BackgroundStep :=
  [.begin 0, .snapshot 0 0 .carriedOut, .snapshot 0 0 .carriedOut, .snapshot 0 0 .carriedOut,
    .plan 0 0 fun _ _ => 0, .migrate 0 0 (fun _ => 0) .carriedOut,
    .migrate 0 0 (fun _ => 0) .carriedOut]

private def sampleJoinEvent : HistoryEvent ℕ :=
  .change (fun _ => 0) (.addNode (sampleNode "n") none) sampleMoves

/-- The put of a key on members that are alive. -/
private theorem exists_samplePut_run (members : List String)
    (halive : ∀ nodeId ∈ (sampleHolding members []).manager.nodes.keys,
      (sampleHolding members []).manager.isAlive 0 nodeId = true)
    (hmember : "a" ∈ (sampleHolding members []).manager.nodes)
    (p : DistributedCacheCluster ℕ → Bool)
    (h : (((sampleHolding members []).serve sampleHash (fun _ => 0)
      (.put "k" (some 1) none)).2.runAll sampleHash [.replicate 0 (fun _ => 0) .carriedOut]).any
        (fun c => decide c.Quiescent && p c) = true) :
    ∃ c m, Run (Sequential sampleHash {"m", "n", "a", "b", "c"} (UsesKeys {"k"}))
      ⟨sampleHolding members [], fun _ => none⟩ [samplePutEvent] ⟨c, m⟩ ∧ p c = true := by
  obtain ⟨c, hrun, hc⟩ := exists_run sampleHash _ _ _ h
  obtain ⟨hquiescent, hp⟩ := Bool.and_eq_true_iff.mp hc
  exact ⟨c, _, .single (.client (allAlive_const halive) ⟨by decide, "a", hmember⟩ rfl
    (hrun.mono fun _ _ _ hs => ⟨hs.1, trivial, hs.2.2⟩) (of_decide_eq_true hquiescent)), hp⟩

/-- `contents_forget_history` where a node was there from the beginning, and where it joined. -/
theorem contents_forget_history_node_joins : ∃ x y,
    Run (Sequential sampleHash {"m", "n", "a", "b", "c"} (UsesKeys {"k"}))
      ⟨sampleHolding ["a", "b", "n"] [], fun _ => none⟩ [samplePutEvent] x ∧
    Run (Sequential sampleHash {"m", "n", "a", "b", "c"} (UsesKeys {"k"}))
      ⟨sampleHolding ["a", "b"] [], fun _ => none⟩ [samplePutEvent, sampleJoinEvent] y ∧
    ∀ nodeId ∈ x.cluster.manager.nodes, ∀ key,
      x.cluster.transport.lookup nodeId key = y.cluster.transport.lookup nodeId key := by
  let call : Call ℕ := .addNode (sampleNode "n") none
  obtain ⟨c, m, hput, hc⟩ := exists_samplePut_run ["a", "b", "n"] (by decide +kernel)
    (by decide +kernel) (fun c => decide (c.manager.nodes.toList =
      [("a", sampleNode "a"), ("b", sampleNode "b"), ("n", sampleNode "n")] ∧
        c.manager.ring.replicas = 1)) (by decide +kernel)
  obtain ⟨d, m', hput', hd⟩ := exists_samplePut_run ["a", "b"] (by decide +kernel)
    (by decide +kernel) (fun d => decide ("n" ∉ d.manager.nodes ∧
      (d.transport.registerNode 0 (sampleNode "n") none).Answers "n" ∧
      d.transport.kind = .inProcess ∧
      ((d.serve sampleHash (fun _ => 0) call).2.runAll sampleHash sampleMoves).any (fun e =>
        decide (e.Quiescent ∧ e.manager.nodes.toList =
          [("a", sampleNode "a"), ("b", sampleNode "b"), ("n", sampleNode "n")] ∧
            e.manager.ring.replicas = 1)) = true)) (by decide +kernel)
  obtain ⟨hnodes, hreplicas⟩ := of_decide_eq_true hc
  obtain ⟨hnew, hanswers, hkind, hjoin⟩ := of_decide_eq_true hd
  obtain ⟨e, hmoves, he⟩ := exists_run sampleHash _ _ _ hjoin
  obtain ⟨hquiescent, hnodes', hreplicas'⟩ := of_decide_eq_true he
  have hruntime : (d.transport.registerNode 0 (sampleNode "n") none).runtimes "n" =
      some (sampleRuntime "n") := NodeTransport.runtimes_registerNode_self hkind
  have hempty : ∀ key, d.JoinsWithout (fun _ => 0) key call := by
    intro key
    change (d.transport.registerNode 0 (sampleNode "n") none).lookup "n" key = none
    rw [NodeTransport.lookup, hruntime]
    rfl
  have hcapacity : ∀ capacity ∈ (d.transport.registerNode 0 (sampleNode "n") none).capacity "n",
      ({"k"} : Finset String).card ≤ capacity := by
    rw [NodeTransport.capacity, hruntime]
    rintro capacity hcapacity
    obtain rfl := Option.some.inj hcapacity
    exact show 1 ≤ 1024 by decide
  have hjoins : d.Joins (fun _ => 0) (sampleNode "n") none := by
    refine ⟨hnew, hanswers, fun key entry hentry => ?_⟩
    cases (hempty key).symm.trans hentry
  have hchange : Sequential sampleHash {"m", "n", "a", "b", "c"} (UsesKeys {"k"}) ⟨d, m'⟩
      sampleJoinEvent ⟨e, m'⟩ :=
    .change (.addNode (by simp [sampleNode]) hjoins) ⟨hempty, hcapacity⟩
      (hmoves.mono fun _ _ _ hs => ⟨hs.1, trivial, hs.2.2⟩) hquiescent
  have hrun' := hput'.append (.single hchange)
  refine ⟨⟨c, m⟩, ⟨e, m'⟩, hput, hrun', ?_⟩
  have hsame : ∀ nodeId, c.manager.nodes.get? nodeId = e.manager.nodes.get? nodeId := by
    intro nodeId
    rw [OrderedDict.ext_toList (hnodes.trans hnodes'.symm)]
  have hfresh := sampleFresh ["a", "b", "n"] (by simp)
  have hfresh' := sampleFresh ["a", "b"] (by simp)
  exact (contents_forget_history hfresh hfresh' sampleHash_noCollision sampleHash_noCollision hput
    hrun' (hreplicas.trans hreplicas'.symm) hsame fun key => rfl).2

end Observed

end DistributedCache
