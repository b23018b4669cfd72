import DistributedCache.Cluster.RingHistory
import DistributedCache.Cluster.Routing

/-!
# The tables of the manager

The manager and its ring keep the membership in five tables: the records by id and the last
heartbeats in the manager, the records by id, the positions and the sorted positions in the ring.
Whatever is added, added again, removed or heard of, the tables stay in step, for every hash, and
the records are those that the additions and removals leave.

Source: `distributed_cache/cluster/manager.py`, `distributed_cache/cluster/consistent_hash.py`.

## Main definitions

* `MembershipChange`, `ClusterManager.run` : a change of the manager, and the manager after
  changes.
* `MembershipChange.membership` : the records that a sequence of changes leaves.
* `ClusterManager.InStep` : the five tables agree.

## Main results

* `ConsistentHashRing.FullyPlaced.length_positions` : how many positions a member owns.
* `ClusterManager.get?_nodes_run` : the records are those that the changes leave.
* `ClusterManager.tables_in_step` : the tables after every sequence of changes.
-/

namespace DistributedCache

open Library

/-- A change of the manager: `add_node`, `remove_node` or `record_heartbeat`, with the reading of
the clock that it takes. -/
inductive MembershipChange
  | addNode (now : Time) (node : NodeConfig)
  | removeNode (nodeId : String)
  | recordHeartbeat (now : Time) (nodeId : String)

namespace MembershipChange

/-- The change of the ring that a change of the manager makes. -/
def ringChange? : MembershipChange → Option RingChange
  | addNode _ node => some (.addNode node)
  | removeNode nodeId => some (.removeNode nodeId)
  | recordHeartbeat _ _ => none

/-- The records that a sequence of changes leaves: the last one added for an id, unless the id
was removed later. Heartbeats leave the records. -/
def membership (changes : List MembershipChange) : String → Option NodeConfig :=
  RingChange.membership (changes.filterMap ringChange?)

/-- The ids of the nodes that a change adds are among `ids`. -/
def AddsIn (ids : Set String) (change : MembershipChange) : Prop :=
  ∀ c ∈ change.ringChange?, c.AddsIn ids

theorem addsIn_univ (change : MembershipChange) : change.AddsIn Set.univ := by
  intro c _
  cases c with
  | addNode node => exact Set.mem_univ node.nodeId
  | removeNode nodeId => exact trivial

end MembershipChange

variable {hashToInt : String → ℕ}

namespace ConsistentHashRing

/-- The positions that a ring visits in a lookup are in its table. -/
theorem isSome_nodeAt {r : ConsistentHashRing} {index : ℕ} (h : index < r.sortedKeys.length) :
    (r.nodeAt index).isSome := by
  rw [nodeAt, List.getElem?_eq_getElem h, Option.bind_some]
  exact OrderedDict.isSome_get?_iff.mpr (mem_sortedKeys.mp (List.getElem_mem h))

/-- Without collisions a member owns one position for each of its virtual nodes. -/
theorem FullyPlaced.length_positions {r : ConsistentHashRing} (hr : r.FullyPlaced hashToInt)
    (hw : r.WellPlaced hashToInt) {ids : Set String} (hcf : NoCollision hashToInt r.replicas ids)
    {nodeId : String} (hid : nodeId ∈ ids) (hmem : nodeId ∈ r.nodes) :
    (r.ring.toList.filter fun p => p.2.nodeId = nodeId).length = r.replicas := by
  obtain ⟨node, hnode⟩ := OrderedDict.mem_iff_exists_get?.mp hmem
  have hkey : node.nodeId = nodeId := hr.key_eq nodeId node hnode
  have hpositions : ((r.ring.toList.filter fun p => p.2.nodeId = nodeId).map Prod.fst).Nodup :=
    (List.filter_sublist.map Prod.fst).nodup r.ring.nodup_keys
  have hlabels : ((List.range r.replicas).map fun i => hashToInt (vnodeLabel nodeId i)).Nodup := by
    refine List.Nodup.map_on (fun i hi j hj heq => ?_) List.nodup_range
    have hlabel := hcf nodeId hid nodeId hid i (List.mem_range.mp hi) j (List.mem_range.mp hj) heq
    exact (vnodeLabel_injective hlabel).2
  have hperm : ((r.ring.toList.filter fun p => p.2.nodeId = nodeId).map Prod.fst).Perm
      ((List.range r.replicas).map fun i => hashToInt (vnodeLabel nodeId i)) := by
    refine (List.perm_ext_iff_of_nodup hpositions hlabels).mpr fun position => ?_
    simp only [List.mem_map, List.mem_filter, decide_eq_true_iff, List.mem_range]
    constructor
    · rintro ⟨⟨p, x⟩, ⟨hp, rfl⟩, rfl⟩
      exact (hw p x (OrderedDict.get?_eq_some_iff.mpr hp)).2
    · rintro ⟨i, hi, rfl⟩
      have hp := OrderedDict.get?_eq_some_iff.mp (hr.get?_ring nodeId node hnode i hi)
      exact ⟨_, ⟨hp, hkey⟩, rfl⟩
  rw [← List.length_map (f := Prod.fst), hperm.length_eq, List.length_map, List.length_range]

end ConsistentHashRing

namespace ClusterManager

section Run

variable (hashToInt)

def change (m : ClusterManager) : MembershipChange → ClusterManager
  | .addNode now node => m.addNode hashToInt now node
  | .removeNode nodeId => m.removeNode nodeId
  | .recordHeartbeat now nodeId => m.recordHeartbeat now nodeId

/-- The manager after a sequence of changes of a manager without members. -/
def run (heartbeatTimeoutSeconds : Time) (hpos : 0 < heartbeatTimeoutSeconds) (replicas : ℕ)
    (hreplicas : 0 < replicas) (changes : List MembershipChange) : ClusterManager :=
  changes.foldl (change hashToInt)
    ⟨heartbeatTimeoutSeconds, hpos, .init replicas hreplicas, .empty, fun _ => none⟩

variable {hashToInt} {heartbeatTimeoutSeconds : Time} {hpos : 0 < heartbeatTimeoutSeconds}
  {replicas : ℕ} {hreplicas : 0 < replicas}

theorem run_concat (changes : List MembershipChange) (c : MembershipChange) :
    run hashToInt heartbeatTimeoutSeconds hpos replicas hreplicas (changes ++ [c]) =
      (run hashToInt heartbeatTimeoutSeconds hpos replicas hreplicas changes).change hashToInt
        c := by
  rw [run, List.foldl_append, List.foldl_cons, List.foldl_nil, run]

theorem reachable_run {ids : Set String} {changes : List MembershipChange}
    (hids : ∀ c ∈ changes, c.AddsIn ids) : (run hashToInt heartbeatTimeoutSeconds hpos replicas
      hreplicas changes).Reachable hashToInt ids := by
  induction changes using List.reverseRecOn with
  | nil => exact .empty heartbeatTimeoutSeconds hpos replicas hreplicas
  | append_singleton changes c ih =>
    have hlast : c.AddsIn ids := hids c (List.mem_append_right _ (List.mem_singleton.mpr rfl))
    have hinit := ih fun d hd => hids d (List.mem_append_left _ hd)
    rw [run_concat]
    cases c with
    | addNode now node => exact hinit.addNode now node (hlast _ rfl)
    | removeNode nodeId => exact hinit.removeNode nodeId
    | recordHeartbeat now nodeId => exact hinit.recordHeartbeat now nodeId

/-- The ring of a manager has the history of the manager, less the heartbeats. -/
theorem ring_run (changes : List MembershipChange) :
    (run hashToInt heartbeatTimeoutSeconds hpos replicas hreplicas changes).ring =
      ConsistentHashRing.run hashToInt replicas hreplicas
        (changes.filterMap MembershipChange.ringChange?) := by
  induction changes using List.reverseRecOn with
  | nil => rfl
  | append_singleton changes c ih =>
    rw [run_concat, List.filterMap_append]
    cases c with
    | addNode now node =>
      change (run hashToInt heartbeatTimeoutSeconds hpos replicas hreplicas
        changes).ring.addNode hashToInt node = ConsistentHashRing.run hashToInt replicas hreplicas
          (changes.filterMap MembershipChange.ringChange? ++ [.addNode node])
      rw [ConsistentHashRing.run_concat, ih, ConsistentHashRing.change]
    | removeNode nodeId =>
      change (run hashToInt heartbeatTimeoutSeconds hpos replicas hreplicas
        changes).ring.removeNode nodeId = ConsistentHashRing.run hashToInt replicas hreplicas
          (changes.filterMap MembershipChange.ringChange? ++ [.removeNode nodeId])
      rw [ConsistentHashRing.run_concat, ih, ConsistentHashRing.change]
    | recordHeartbeat now nodeId =>
      change ((run hashToInt heartbeatTimeoutSeconds hpos replicas hreplicas
        changes).recordHeartbeat now nodeId).ring = ConsistentHashRing.run hashToInt replicas
          hreplicas (changes.filterMap MembershipChange.ringChange? ++ [])
      rw [ring_recordHeartbeat, List.append_nil, ih]

/-- The records of a manager are those that its changes leave. -/
theorem get?_nodes_run (changes : List MembershipChange) (nodeId : String) :
    (run hashToInt heartbeatTimeoutSeconds hpos replicas hreplicas changes).nodes.get? nodeId =
      MembershipChange.membership changes nodeId := by
  have hreach : (run hashToInt heartbeatTimeoutSeconds hpos replicas hreplicas changes).Reachable
      hashToInt Set.univ := reachable_run fun c _ => c.addsIn_univ
  rw [← hreach.coherent.nodes_eq, ring_run, ConsistentHashRing.get?_nodes_run,
    MembershipChange.membership]

end Run

/-- The tables of the manager and of its ring agree. -/
structure InStep (hashToInt : String → ℕ) (m : ClusterManager) : Prop where
  /-- The ring has the records of the manager, under the same ids. -/
  ring_nodes : ∀ nodeId, m.ring.nodes.get? nodeId = m.nodes.get? nodeId
  /-- There is a heartbeat of every member, and of no other id. -/
  lastHeartbeat : ∀ nodeId, (m.lastHeartbeat nodeId).isSome ↔ nodeId ∈ m.nodes
  /-- The sorted positions are in order, none of them twice. -/
  sorted : m.ring.sortedKeys.Pairwise (· < ·)
  /-- They are the positions of the ring. -/
  sortedKeys : ∀ position, position ∈ m.ring.sortedKeys ↔ position ∈ m.ring.ring
  /-- A position has the record that the manager holds for its id. -/
  current : ∀ position node, m.ring.ring.get? position = some node →
    m.nodes.get? node.nodeId = some node
  /-- Routing names members at their current addresses only. -/
  routed : ∀ clock key node,
    (m.routeForKey hashToInt clock key).primary = some node ∨
      (m.routeForKey hashToInt clock key).replica = some node ∨
      (m.routeForKey hashToInt clock key).servedBy = some node →
    m.nodes.get? node.nodeId = some node
  /-- The lookups on a ring with positions find a record at every index that they take. -/
  indexed : m.ring.ring.toList ≠ [] → ∀ key,
    (m.ring.nodeAt (m.ring.startIndex hashToInt key)).isSome ∧
      ∀ offset < m.ring.sortedKeys.length, (m.ring.nodeAt
        ((m.ring.startIndex hashToInt key + offset) % m.ring.sortedKeys.length)).isSome

variable {m : ClusterManager}

/-- There is a heartbeat of every member, and of no other id. -/
theorem Reachable.isSome_lastHeartbeat {ids : Set String} (h : m.Reachable hashToInt ids)
    (nodeId : String) : (m.lastHeartbeat nodeId).isSome ↔ nodeId ∈ m.nodes := by
  induction h with
  | empty heartbeatTimeoutSeconds hpos replicas hreplicas =>
    exact iff_of_false Bool.false_ne_true (OrderedDict.not_mem_empty nodeId)
  | @addNode m now node hid hm ih =>
    change (Function.update m.lastHeartbeat node.nodeId _ nodeId).isSome ↔
      nodeId ∈ m.nodes.set node.nodeId node
    rw [OrderedDict.mem_set, Function.update_apply]
    split_ifs with hnode
    · simp [hnode]
    · simp [hnode, ih]
  | @removeNode m id hm ih =>
    change (Function.update m.lastHeartbeat id none nodeId).isSome ↔ nodeId ∈ m.nodes.pop id
    rw [OrderedDict.mem_pop, Function.update_apply]
    split_ifs with hnode
    · simp [hnode]
    · simp [hnode, ih]
  | @recordHeartbeat m now id hm ih =>
    rw [nodes_recordHeartbeat, ClusterManager.recordHeartbeat]
    split_ifs with hmem
    · change (Function.update m.lastHeartbeat id (some now) nodeId).isSome ↔ _
      rw [Function.update_apply]
      split_ifs with hnode
      · simp [hnode, hmem]
      · exact ih
    · exact ih

theorem Reachable.inStep {ids : Set String} (h : m.Reachable hashToInt ids) :
    m.InStep hashToInt where
  ring_nodes := h.coherent.nodes_eq
  lastHeartbeat := h.isSome_lastHeartbeat
  sorted := m.ring.pairwise_lt_sortedKeys
  sortedKeys position := ConsistentHashRing.mem_sortedKeys
  current position node hnode := by
    rw [← h.coherent.nodes_eq]
    exact (h.coherent.wellPlaced position node hnode).1
  routed clock key node hnode := by
    have howner : node ∈ m.ring.owners hashToInt key := by
      rcases hnode with hnode | hnode | hnode
      · rw [primary_routeForKey] at hnode
        exact (ConsistentHashRing.mem_owners hashToInt).mpr (Or.inl hnode)
      · rw [replica_routeForKey] at hnode
        exact (ConsistentHashRing.mem_owners hashToInt).mpr (Or.inr hnode)
      · exact mem_owners_of_servedBy hnode
    exact h.coherent.get?_nodes_of_mem_owners howner
  indexed hne key := by
    have hkeys : m.ring.sortedKeys ≠ [] := fun heq =>
      hne (ConsistentHashRing.sortedKeys_eq_nil_iff.mp heq)
    refine ⟨ConsistentHashRing.isSome_nodeAt
      (ConsistentHashRing.startIndex_lt hashToInt hkeys key), fun offset _ => ?_⟩
    exact ConsistentHashRing.isSome_nodeAt (Nat.mod_lt _ (List.length_pos_iff.mpr hkeys))

/-- **The tables stay in step.** After every sequence of additions, removals and heartbeats, for
every hash, the five tables agree, and the records are those that the sequence leaves. Where the
hash does not collide on the ids that were added, every member owns as many positions as the ring
has replicas, and a key has a primary exactly when there is a member. -/
theorem tables_in_step (heartbeatTimeoutSeconds : Time) (hpos : 0 < heartbeatTimeoutSeconds)
    (replicas : ℕ) (hreplicas : 0 < replicas) {ids : Set String} {changes : List MembershipChange}
    (hids : ∀ c ∈ changes, c.AddsIn ids) :
    let m := run hashToInt heartbeatTimeoutSeconds hpos replicas hreplicas changes
    m.InStep hashToInt ∧
      (∀ nodeId, m.nodes.get? nodeId = MembershipChange.membership changes nodeId) ∧
      (NoCollision hashToInt m.ring.replicas ids →
        (∀ nodeId ∈ m.nodes, (m.ring.ring.toList.filter fun p => p.2.nodeId = nodeId).length =
          m.ring.replicas) ∧
        ∀ clock key, (m.routeForKey hashToInt clock key).primary.isSome ↔
          ∃ nodeId, nodeId ∈ m.nodes) := by
  intro m
  have h : m.Reachable hashToInt ids := reachable_run hids
  refine ⟨h.inStep, get?_nodes_run changes, fun hcf => ⟨fun nodeId hmem => ?_, fun clock key => ?_⟩⟩
  · exact (h.fullyPlaced hcf).length_positions h.coherent.wellPlaced hcf (h.mem_ids nodeId hmem)
      (h.coherent.mem_ring_iff.mpr hmem)
  · rw [primary_routeForKey]
    constructor
    · intro hsome
      obtain ⟨p, hp⟩ := Option.isSome_iff_exists.mp hsome
      exact ⟨p.nodeId, OrderedDict.mem_iff_exists_get?.mpr
        ⟨p, h.inStep.routed clock key p (Or.inl (by rw [primary_routeForKey, hp]))⟩⟩
    · rintro ⟨nodeId, hmem⟩
      obtain ⟨p, q, hpair⟩ :=
        (h.fullyPlaced hcf).exists_primary (h.coherent.mem_ring_iff.mpr hmem) key
      rw [hpair]
      rfl

/-- The nodes `"a"` and `"b"` join, `"a"` joins again with another port, `"b"` and an unknown id are
removed. -/
def sampleChanges : List MembershipChange :=
  [.addNode 0 ⟨"a", "127.0.0.1", 9000⟩, .addNode 1 ⟨"b", "127.0.0.1", 9002⟩,
    .recordHeartbeat 4 "b", .addNode 5 ⟨"a", "127.0.0.1", 9001⟩, .removeNode "b", .removeNode "z"]

/-- `tables_in_step` for `sampleChanges`: only the new record of `"a"` is left. -/
theorem tables_in_step_added_again :
    let m := run sampleHash 5 (by decide) 2 (by decide) sampleChanges
    m.InStep sampleHash ∧ m.nodes.get? "a" = some ⟨"a", "127.0.0.1", 9001⟩ ∧
      m.nodes.get? "b" = none := by
  intro m
  have hids : ∀ c ∈ sampleChanges, c.AddsIn Set.univ := fun c _ => c.addsIn_univ
  have hrecords : ∀ nodeId, m.nodes.get? nodeId =
      MembershipChange.membership sampleChanges nodeId := (tables_in_step 5 _ 2 _ hids).2.1
  exact ⟨(tables_in_step 5 _ 2 _ hids).1, hrecords "a", hrecords "b"⟩

end ClusterManager

end DistributedCache
