import DistributedCache.Cluster.Ownership

/-!
# Rings with the same members

A gateway builds its ring by adding and removing nodes one after another; two gateways may see
the changes in different orders, add a node again with a new address, or remove a node that is
not there. Without collisions the positions of a ring are those of the virtual nodes of its
current members, with their current records. So the ring is determined by the members.

## Main definitions

* `RingChange`, `ConsistentHashRing.run` : a change of the ring, and the ring after changes.
* `RingChange.membership` : the records that a sequence of changes leaves.

## Main results

* `ConsistentHashRing.get?_nodes_run` : the records of a ring are those that its changes leave.
* `ConsistentHashRing.history_independent` : rings with the same members answer alike.
-/

namespace DistributedCache

open Library

/-- A change of the ring: `add_node` or `remove_node`. -/
inductive RingChange
  | addNode (node : NodeConfig)
  | removeNode (nodeId : String)

namespace RingChange

/-- The record that a change leaves for an id. -/
def apply (members : String → Option NodeConfig) : RingChange → String → Option NodeConfig
  | addNode node => Function.update members node.nodeId (some node)
  | removeNode nodeId => Function.update members nodeId none

/-- The records that a sequence of changes leaves: the last one added for an id, unless the id
was removed later. -/
def membership (changes : List RingChange) : String → Option NodeConfig :=
  changes.foldl apply fun _ => none

/-- The ids of the nodes that a change adds are among `ids`. -/
def AddsIn (ids : Set String) : RingChange → Prop
  | addNode node => node.nodeId ∈ ids
  | removeNode _ => True

end RingChange

namespace ConsistentHashRing

section Run

variable (hashToInt : String → ℕ)

def change (r : ConsistentHashRing) : RingChange → ConsistentHashRing
  | .addNode node => r.addNode hashToInt node
  | .removeNode nodeId => r.removeNode nodeId

/-- The ring after a sequence of changes of the empty ring. -/
def run (replicas : ℕ) (h : 0 < replicas) (changes : List RingChange) : ConsistentHashRing :=
  changes.foldl (change hashToInt) (init replicas h)

variable {hashToInt} {replicas : ℕ} {hreplicas : 0 < replicas} {changes : List RingChange}

theorem run_concat (c : RingChange) : run hashToInt replicas hreplicas (changes ++ [c]) =
    (run hashToInt replicas hreplicas changes).change hashToInt c := by
  rw [run, List.foldl_append, List.foldl_cons, List.foldl_nil, run]

theorem reachable_run (changes : List RingChange) :
    Reachable hashToInt replicas hreplicas (run hashToInt replicas hreplicas changes) := by
  induction changes using List.reverseRecOn with
  | nil => exact .init
  | append_singleton changes c ih =>
    rw [run_concat]
    cases c with
    | addNode node => exact ih.addNode node
    | removeNode nodeId => exact ih.removeNode nodeId

/-- The records of a ring are those that its changes leave. -/
theorem get?_nodes_run (changes : List RingChange) (nodeId : String) :
    (run hashToInt replicas hreplicas changes).nodes.get? nodeId =
      RingChange.membership changes nodeId := by
  induction changes using List.reverseRecOn generalizing nodeId with
  | nil => rfl
  | append_singleton changes c ih =>
    rw [run_concat, RingChange.membership, List.foldl_append, List.foldl_cons, List.foldl_nil]
    change _ = RingChange.apply (RingChange.membership changes) c nodeId
    cases c with
    | addNode node =>
      rw [RingChange.apply, Function.update_apply, ← ih]
      exact OrderedDict.get?_set _ _ _ _
    | removeNode id =>
      rw [RingChange.apply, Function.update_apply, ← ih]
      exact OrderedDict.get?_pop _ _ _

/-- The ids of a ring were added. -/
theorem mem_ids_of_mem_run {ids : Set String} (hids : ∀ c ∈ changes, c.AddsIn ids) {nodeId : String}
    (h : nodeId ∈ (run hashToInt replicas hreplicas changes).nodes) : nodeId ∈ ids := by
  induction changes using List.reverseRecOn with
  | nil => exact absurd h (OrderedDict.not_mem_empty nodeId)
  | append_singleton changes c ih =>
    have hinit : ∀ d ∈ changes, d.AddsIn ids := fun d hd => hids d (List.mem_append_left _ hd)
    have hlast : c.AddsIn ids := hids c (List.mem_append_right _ (List.mem_singleton.mpr rfl))
    rw [run_concat] at h
    cases c with
    | addNode node =>
      rcases OrderedDict.mem_set.mp h with rfl | h
      · exact hlast
      · exact ih hinit h
    | removeNode id => exact ih hinit (OrderedDict.mem_pop.mp h).2

theorem fullyPlaced_run {ids : Set String} (hcf : NoCollision hashToInt replicas ids)
    (hids : ∀ c ∈ changes, c.AddsIn ids) :
    (run hashToInt replicas hreplicas changes).FullyPlaced hashToInt := by
  induction changes using List.reverseRecOn with
  | nil => exact fullyPlaced_init hashToInt replicas hreplicas
  | append_singleton changes c ih =>
    have hinit : ∀ d ∈ changes, d.AddsIn ids := fun d hd => hids d (List.mem_append_left _ hd)
    have hlast : c.AddsIn ids := hids c (List.mem_append_right _ (List.mem_singleton.mpr rfl))
    rw [run_concat]
    cases c with
    | addNode node =>
      have hcf' : NoCollision hashToInt (run hashToInt replicas hreplicas changes).replicas ids := by
        rwa [replicas_of_reachable hashToInt (reachable_run changes)]
      exact (ih hinit).addNode hcf' (fun id => mem_ids_of_mem_run hinit) hlast
    | removeNode id => exact (ih hinit).removeNode id

end Run

variable {hashToInt : String → ℕ} {r s : ConsistentHashRing}

/-- Without collisions the positions of a ring are those of the virtual nodes of its members. -/
theorem FullyPlaced.get?_ring_iff (hr : r.FullyPlaced hashToInt) (hw : r.WellPlaced hashToInt)
    {position : ℕ} {node : NodeConfig} : r.ring.get? position = some node ↔
      r.nodes.get? node.nodeId = some node ∧
        ∃ i < r.replicas, hashToInt (vnodeLabel node.nodeId i) = position := by
  constructor
  · exact hw position node
  · rintro ⟨hnode, i, hi, rfl⟩
    exact hr.get?_ring _ node hnode i hi

/-- Rings with the same virtual nodes have the same clockwise lists. -/
theorem clockwise_congr (h : r.virtualNodes = s.virtualNodes) (key : String) :
    r.clockwise hashToInt key = s.clockwise hashToInt key := by
  rw [clockwise, clockwise, h]

/-- **The ring forgets its history.** Two sequences of additions and removals that leave the same
records give rings with the same virtual nodes, whose lookups agree on every key. -/
theorem history_independent {replicas : ℕ} {hreplicas : 0 < replicas} {ids : Set String}
    (hcf : NoCollision hashToInt replicas ids) {changes changes' : List RingChange}
    (hids : ∀ c ∈ changes, c.AddsIn ids) (hids' : ∀ c ∈ changes', c.AddsIn ids)
    (hsame : RingChange.membership changes = RingChange.membership changes') :
    (run hashToInt replicas hreplicas changes).virtualNodes =
      (run hashToInt replicas hreplicas changes').virtualNodes ∧
    ∀ key, (run hashToInt replicas hreplicas changes).getNode hashToInt key =
        (run hashToInt replicas hreplicas changes').getNode hashToInt key ∧
      ∀ excludeNodeId,
        (run hashToInt replicas hreplicas changes).getSuccessorForKey hashToInt key excludeNodeId =
          (run hashToInt replicas hreplicas changes').getSuccessorForKey hashToInt key
            excludeNodeId := by
  have hr : Reachable hashToInt replicas hreplicas _ := reachable_run changes
  have hs : Reachable hashToInt replicas hreplicas _ := reachable_run changes'
  have hnodes : ∀ nodeId, (run hashToInt replicas hreplicas changes).nodes.get? nodeId =
      (run hashToInt replicas hreplicas changes').nodes.get? nodeId := fun nodeId => by
    rw [get?_nodes_run, get?_nodes_run, hsame]
  have hvirtual : (run hashToInt replicas hreplicas changes).virtualNodes =
      (run hashToInt replicas hreplicas changes').virtualNodes := by
    refine virtualNodes_eq_of_mem (pairwise_virtualNodes _) fun p => ?_
    rw [mem_virtualNodes, (fullyPlaced_run hcf hids').get?_ring_iff hs.wellPlaced,
      (fullyPlaced_run hcf hids).get?_ring_iff hr.wellPlaced, hnodes,
      replicas_of_reachable hashToInt hr, replicas_of_reachable hashToInt hs]
  refine ⟨hvirtual, fun key => ⟨?_, fun excludeNodeId => ?_⟩⟩
  · rw [getNode_eq_head?, getNode_eq_head?, clockwise_congr hvirtual]
  · rw [getSuccessorForKey_eq_find?, getSuccessorForKey_eq_find?, clockwise_congr hvirtual]

/-- `history_independent` where one gateway saw `"a"` move to another port, and the other one saw
`"b"` leave and come back. -/
theorem history_independent_two_gateways :
    let hash : String → ℕ := fun s => if s = "a:0" then 10 else if s = "b:0" then 20 else 15
    let a : NodeConfig := ⟨"a", "127.0.0.1", 8001⟩
    let a' : NodeConfig := ⟨"a", "127.0.0.1", 9001⟩
    let b : NodeConfig := ⟨"b", "127.0.0.1", 8002⟩
    (run hash 1 Nat.one_pos [.addNode a, .addNode b, .addNode a']).virtualNodes =
      (run hash 1 Nat.one_pos [.addNode b, .addNode a', .removeNode "b", .removeNode "c",
        .addNode b]).virtualNodes := by
  intro hash a a' b
  have hcf : NoCollision hash 1 {"a", "b"} := by
    intro x hx y hy i hi j hj
    obtain rfl : i = 0 := by omega
    obtain rfl : j = 0 := by omega
    rcases hx with rfl | rfl <;> rcases hy with rfl | rfl <;> decide
  refine (history_independent hcf ?_ ?_ ?_).1
  · simp [RingChange.AddsIn, a, a', b]
  · simp [RingChange.AddsIn, a', b]
  · funext nodeId
    by_cases ha : nodeId = "a"
    · subst ha
      rfl
    · by_cases hb : nodeId = "b"
      · subst hb
        rfl
      · simp [RingChange.membership, RingChange.apply, Function.update_apply, a, a', b, ha, hb]

end ConsistentHashRing

end DistributedCache
