import DistributedCache.Cluster.Ownership
import Mathlib.Algebra.Order.Ring.Rat

/-!
# The cluster manager

The manager keeps the membership, the ring and the time of the last heartbeat of each member,
and routes a key to its primary, or to its replica while the primary is not alive. Liveness is
read from the clock at each check, up to three times in one routing decision.

Source: `distributed_cache/cluster/manager.py`.

## Main definitions

* `ClusterManager`, `RoutingDecision`.
* `ClusterManager.addNode`, `ClusterManager.removeNode`, `ClusterManager.recordHeartbeat`.
* `ClusterManager.isAlive`, `ClusterManager.routeForKey`.
* `ClusterManager.Coherent` : members and ring agree.

## Main results

* `ClusterManager.Coherent.addNode`, `ClusterManager.Coherent.removeNode`.
* `ClusterManager.servedBy_routeForKey`, `ClusterManager.otherOwner_routeForKey` : routing under
  a steady liveness pattern.
-/

namespace DistributedCache

open Library

structure RoutingDecision where
  primary : Option NodeConfig
  replica : Option NodeConfig
  servedBy : Option NodeConfig
  deriving DecidableEq

structure ClusterManager where
  heartbeatTimeoutSeconds : Time
  heartbeatTimeout_pos : 0 < heartbeatTimeoutSeconds
  ring : ConsistentHashRing
  nodes : OrderedDict String NodeConfig
  lastHeartbeat : String → Option Time

namespace ClusterManager

/-- `is_alive` at the reading `now`. -/
def isAlive (m : ClusterManager) (now : Time) (nodeId : String) : Bool :=
  match m.lastHeartbeat nodeId with
  | none => false
  | some lastSeen => decide (now - lastSeen ≤ m.heartbeatTimeoutSeconds)

def recordHeartbeat (m : ClusterManager) (now : Time) (nodeId : String) : ClusterManager :=
  if nodeId ∈ m.nodes then
    { m with lastHeartbeat := Function.update m.lastHeartbeat nodeId (some now) }
  else m

def removeNode (m : ClusterManager) (nodeId : String) : ClusterManager :=
  { m with
    nodes := m.nodes.pop nodeId
    lastHeartbeat := Function.update m.lastHeartbeat nodeId none
    ring := m.ring.removeNode nodeId }

def getNode (m : ClusterManager) (nodeId : String) : Option NodeConfig := m.nodes.get? nodeId

def getAllNodes (m : ClusterManager) : List NodeConfig := m.nodes.values

/-- `health_report`; each member is checked at a reading of its own. -/
def healthReport (m : ClusterManager) (clock : Clock) : List (String × Bool) :=
  m.nodes.keys.zipIdx.map fun p => (p.1, m.isAlive (clock p.2) p.1)

/-- `copy_ring`: rings are values here, so the copy is the ring. -/
def copyRing (m : ClusterManager) : ConsistentHashRing := m.ring

section Hash

variable (hashToInt : String → ℕ)

/-- `add_node`; `setdefault` keeps the heartbeat of a node that is already known. -/
def addNode (m : ClusterManager) (now : Time) (node : NodeConfig) : ClusterManager :=
  { m with
    nodes := m.nodes.set node.nodeId node
    ring := m.ring.addNode hashToInt node
    lastHeartbeat :=
      Function.update m.lastHeartbeat node.nodeId (some ((m.lastHeartbeat node.nodeId).getD now)) }

/-- `ClusterManager(nodes, heartbeat_timeout_seconds, replicas)`; the source refuses a timeout
or a number of replicas that is not positive. -/
def init (clock : Clock) (nodes : List NodeConfig) (heartbeatTimeoutSeconds : Time)
    (hpos : 0 < heartbeatTimeoutSeconds) (replicas : ℕ) (hreplicas : 0 < replicas) :
    ClusterManager :=
  nodes.zipIdx.foldl (fun m p => m.addNode hashToInt (clock p.2) p.1)
    ⟨heartbeatTimeoutSeconds, hpos, .init replicas hreplicas, .empty, fun _ => none⟩

/-- `route_for_key`; `clock 0`, `clock 1` and `clock 2` are the readings of its three
liveness checks. -/
def routeForKey (m : ClusterManager) (clock : Clock) (key : String) : RoutingDecision :=
  match m.ring.getNode hashToInt key with
  | none => ⟨none, none, none⟩
  | some primary =>
    let replica := m.ring.getSuccessorForKey hashToInt key (some primary.nodeId)
    let servedBy := if m.isAlive (clock 0) primary.nodeId then some primary else replica
    match servedBy with
    | none => ⟨some primary, replica, none⟩
    | some node =>
      if m.isAlive (clock 1) node.nodeId then ⟨some primary, replica, some node⟩
      else
        ⟨some primary, replica, if m.isAlive (clock 2) primary.nodeId then some primary else none⟩

end Hash

/-! ### Members and ring -/

/-- The members are keyed by their ids, the ring knows the same records, and is well placed. -/
structure Coherent (hashToInt : String → ℕ) (m : ClusterManager) : Prop where
  key_eq : ∀ nodeId node, m.nodes.get? nodeId = some node → node.nodeId = nodeId
  nodes_eq : ∀ nodeId, m.ring.nodes.get? nodeId = m.nodes.get? nodeId
  wellPlaced : m.ring.WellPlaced hashToInt

variable {hashToInt : String → ℕ}

theorem Coherent.addNode {m : ClusterManager} (h : m.Coherent hashToInt) (now : Time)
    (node : NodeConfig) : (m.addNode hashToInt now node).Coherent hashToInt where
  key_eq nodeId x hx := by
    change (m.nodes.set node.nodeId node).get? nodeId = some x at hx
    rw [OrderedDict.get?_set] at hx
    split_ifs at hx with hid
    · rw [← Option.some.inj hx, hid]
    · exact h.key_eq nodeId x hx
  nodes_eq nodeId := by
    change (m.ring.nodes.set node.nodeId node).get? nodeId =
      (m.nodes.set node.nodeId node).get? nodeId
    rw [OrderedDict.get?_set, OrderedDict.get?_set, h.nodes_eq]
  wellPlaced := h.wellPlaced.addNode node

theorem Coherent.removeNode {m : ClusterManager} (h : m.Coherent hashToInt) (nodeId : String) :
    (m.removeNode nodeId).Coherent hashToInt where
  key_eq id x hx := by
    change (m.nodes.pop nodeId).get? id = some x at hx
    rw [OrderedDict.get?_pop] at hx
    split_ifs at hx
    exact h.key_eq id x hx
  nodes_eq id := by
    change (m.ring.nodes.pop nodeId).get? id = (m.nodes.pop nodeId).get? id
    rw [OrderedDict.get?_pop, OrderedDict.get?_pop, h.nodes_eq]
  wellPlaced := h.wellPlaced.removeNode nodeId

/-- Heartbeats touch neither members nor ring. -/
@[simp] theorem ring_recordHeartbeat (m : ClusterManager) (now : Time) (nodeId : String) :
    (m.recordHeartbeat now nodeId).ring = m.ring := by
  unfold recordHeartbeat
  split_ifs <;> rfl

@[simp] theorem nodes_recordHeartbeat (m : ClusterManager) (now : Time) (nodeId : String) :
    (m.recordHeartbeat now nodeId).nodes = m.nodes := by
  unfold recordHeartbeat
  split_ifs <;> rfl

theorem Coherent.recordHeartbeat {m : ClusterManager} (h : m.Coherent hashToInt) (now : Time)
    (nodeId : String) : (m.recordHeartbeat now nodeId).Coherent hashToInt := by
  obtain ⟨hkey, hnodes, hring⟩ := h
  exact ⟨by simpa using hkey, by simpa using hnodes, by simpa using hring⟩

/-- A heartbeat of one node leaves the liveness of the others. -/
theorem isAlive_recordHeartbeat_of_ne {m : ClusterManager} {nodeId other : String}
    (h : other ≠ nodeId) (now now' : Time) :
    (m.recordHeartbeat now nodeId).isAlive now' other = m.isAlive now' other := by
  unfold recordHeartbeat
  split_ifs
  · simp [isAlive, Function.update_of_ne h]
  · rfl

/-- The managers built from one without members, by additions of nodes with ids in `ids`,
removals and heartbeats. -/
inductive Reachable (hashToInt : String → ℕ) (ids : Set String) : ClusterManager → Prop
  | empty (heartbeatTimeoutSeconds : Time) (hpos : 0 < heartbeatTimeoutSeconds) (replicas : ℕ)
      (hreplicas : 0 < replicas) : Reachable hashToInt ids
        ⟨heartbeatTimeoutSeconds, hpos, .init replicas hreplicas, .empty, fun _ => none⟩
  | addNode {m : ClusterManager} (now : Time) (node : NodeConfig) (hid : node.nodeId ∈ ids)
      (hm : Reachable hashToInt ids m) : Reachable hashToInt ids (m.addNode hashToInt now node)
  | removeNode {m : ClusterManager} (nodeId : String) (hm : Reachable hashToInt ids m) :
      Reachable hashToInt ids (m.removeNode nodeId)
  | recordHeartbeat {m : ClusterManager} (now : Time) (nodeId : String)
      (hm : Reachable hashToInt ids m) : Reachable hashToInt ids (m.recordHeartbeat now nodeId)

theorem Reachable.init (clock : Clock) (nodes : List NodeConfig) (heartbeatTimeoutSeconds : Time)
    (hpos : 0 < heartbeatTimeoutSeconds) (replicas : ℕ) (hreplicas : 0 < replicas)
    {ids : Set String} (hids : ∀ node ∈ nodes, node.nodeId ∈ ids) :
    Reachable hashToInt ids
      (init hashToInt clock nodes heartbeatTimeoutSeconds hpos replicas hreplicas) := by
  rw [ClusterManager.init]
  have hzip : ∀ p ∈ nodes.zipIdx, p.1.nodeId ∈ ids := fun p hp =>
    hids p.1 (List.fst_mem_of_mem_zipIdx hp)
  generalize nodes.zipIdx = pairs at hzip
  induction pairs using List.reverseRecOn with
  | nil => exact .empty heartbeatTimeoutSeconds hpos replicas hreplicas
  | append_singleton pairs p ih =>
    rw [List.foldl_append]
    exact .addNode _ p.1 (hzip p (by simp)) (ih fun q hq => hzip q (by simp [hq]))

/-- The members of a new manager are the nodes that it was given. -/
theorem exists_of_mem_nodes_init {clock : Clock} {nodes : List NodeConfig}
    {heartbeatTimeoutSeconds : Time} {hpos : 0 < heartbeatTimeoutSeconds} {replicas : ℕ}
    {hreplicas : 0 < replicas} {nodeId : String}
    (h : nodeId ∈ (ClusterManager.init hashToInt clock nodes heartbeatTimeoutSeconds hpos replicas
      hreplicas).nodes) : ∃ node ∈ nodes, node.nodeId = nodeId := by
  rw [ClusterManager.init] at h
  have hzip : ∀ p ∈ nodes.zipIdx, p.1 ∈ nodes := fun p hp => List.fst_mem_of_mem_zipIdx hp
  generalize nodes.zipIdx = pairs at h hzip
  induction pairs using List.reverseRecOn with
  | nil => exact absurd h (OrderedDict.not_mem_empty nodeId)
  | append_singleton pairs p ih =>
    rw [List.foldl_append] at h
    rcases OrderedDict.mem_set.mp h with rfl | h
    · exact ⟨p.1, hzip p (by simp), rfl⟩
    · exact ih h fun q hq => hzip q (by simp [hq])

theorem Reachable.coherent {ids : Set String} {m : ClusterManager}
    (h : Reachable hashToInt ids m) : m.Coherent hashToInt := by
  induction h with
  | empty heartbeatTimeoutSeconds hpos replicas hreplicas =>
    refine ⟨fun nodeId node hnode => ?_, fun nodeId => rfl,
      ConsistentHashRing.wellPlaced_init hashToInt replicas hreplicas⟩
    simp at hnode
  | addNode now node hid hm ih => exact ih.addNode now node
  | removeNode nodeId hm ih => exact ih.removeNode nodeId
  | recordHeartbeat now nodeId hm ih => exact ih.recordHeartbeat now nodeId

theorem Reachable.mem_ids {ids : Set String} {m : ClusterManager} (h : Reachable hashToInt ids m) :
    ∀ nodeId ∈ m.nodes, nodeId ∈ ids := by
  induction h with
  | empty heartbeatTimeoutSeconds hpos replicas hreplicas =>
    exact fun nodeId hn => absurd hn (OrderedDict.not_mem_empty nodeId)
  | addNode now node hid hm ih =>
    intro nodeId hn
    rcases OrderedDict.mem_set.mp hn with rfl | hn
    · exact hid
    · exact ih nodeId hn
  | removeNode nodeId hm ih => exact fun id hid => ih id (OrderedDict.mem_pop.mp hid).2
  | recordHeartbeat now nodeId hm ih =>
    intro id hid
    rw [nodes_recordHeartbeat] at hid
    exact ih id hid

/-- Without collisions all members carry all positions of their virtual nodes. -/
theorem Reachable.fullyPlaced {ids : Set String} {m : ClusterManager}
    (h : Reachable hashToInt ids m)
    (hcf : NoCollision hashToInt m.ring.replicas ids) :
    m.ring.FullyPlaced hashToInt := by
  induction h with
  | empty heartbeatTimeoutSeconds hpos replicas hreplicas =>
    exact ConsistentHashRing.fullyPlaced_init hashToInt replicas hreplicas
  | @addNode m now node hid hm ih =>
    have hids : ∀ id ∈ m.ring.nodes, id ∈ ids := by
      intro id hmem
      obtain ⟨x, hx⟩ := OrderedDict.mem_iff_exists_get?.mp hmem
      rw [hm.coherent.nodes_eq] at hx
      exact hm.mem_ids id (OrderedDict.mem_iff_exists_get?.mpr ⟨x, hx⟩)
    exact (ih hcf).addNode hcf hids hid
  | removeNode nodeId hm ih => exact (ih hcf).removeNode nodeId
  | recordHeartbeat now nodeId hm ih =>
    rw [ring_recordHeartbeat] at hcf ⊢
    exact ih hcf

theorem Coherent.mem_ring_iff {m : ClusterManager} (h : m.Coherent hashToInt) {nodeId : String} :
    nodeId ∈ m.ring.nodes ↔ nodeId ∈ m.nodes := by
  rw [OrderedDict.mem_iff_exists_get?, OrderedDict.mem_iff_exists_get?, h.nodes_eq]

/-- Without collisions a node that joins enters the pair of owners in one of the two roles, next
to the primary, or not at all. -/
theorem Reachable.ownerPair_addNode {ids : Set String} {m : ClusterManager}
    (h : Reachable hashToInt ids m) (hcf : NoCollision hashToInt m.ring.replicas ids)
    {member : String} (hmember : member ∈ m.nodes) {node : NodeConfig}
    (hnew : node.nodeId ∉ m.nodes) (hid : node.nodeId ∈ ids) (key : String) :
    ∃ p q, m.ring.ownerPair hashToInt key = (some p, q) ∧
      ((m.ring.addNode hashToInt node).ownerPair hashToInt key = (some p, q) ∨
        (m.ring.addNode hashToInt node).ownerPair hashToInt key = (some node, some p) ∨
        (m.ring.addNode hashToInt node).ownerPair hashToInt key = (some p, some node)) := by
  have hmem : ∀ {id}, id ∈ m.ring.nodes ↔ id ∈ m.nodes := h.coherent.mem_ring_iff
  obtain ⟨p, q, hpair⟩ := (h.fullyPlaced hcf).exists_primary (hmem.mpr hmember) key
  have hfresh : m.ring.FreshNode hashToInt node.nodeId :=
    h.coherent.wellPlaced.freshNode (fun hin => hnew (hmem.mp hin)) hcf
      (fun id hin => h.mem_ids id (hmem.mp hin)) hid
  exact ⟨p, q, hpair, ConsistentHashRing.ownerPair_addNode hfresh hpair⟩

/-! ### Routing -/

/-- The owners of a key are members. -/
theorem Coherent.get?_nodes_of_mem_owners {m : ClusterManager} (h : m.Coherent hashToInt)
    {key : String} {node : NodeConfig} (hnode : node ∈ m.ring.owners hashToInt key) :
    m.nodes.get? node.nodeId = some node := by
  rw [← h.nodes_eq]
  exact h.wellPlaced.get?_nodes_of_mem_owners hnode

/-- Whether a node answers the liveness checks of a call with `b`, at every reading. -/
def AliveThroughout (m : ClusterManager) (clock : Clock) (nodeId : String) (b : Bool) : Prop :=
  ∀ i, m.isAlive (clock i) nodeId = b

/-- The owners of a key that are alive, the primary first. -/
def liveOwners (hashToInt : String → ℕ) (m : ClusterManager) (alive : String → Bool)
    (key : String) : List NodeConfig :=
  (m.ring.owners hashToInt key).filter fun node => alive node.nodeId

/-- Under a steady liveness pattern the first live owner serves a key. -/
theorem servedBy_routeForKey {m : ClusterManager} {clock : Clock} {key : String}
    {alive : String → Bool} (h : ∀ node ∈ m.ring.owners hashToInt key,
      m.AliveThroughout clock node.nodeId (alive node.nodeId)) :
    (m.routeForKey hashToInt clock key).servedBy = (m.liveOwners hashToInt alive key).head? := by
  rw [liveOwners]
  simp only [ConsistentHashRing.owners, ConsistentHashRing.ownerPair] at h ⊢
  rw [routeForKey]
  cases hget : m.ring.getNode hashToInt key with
  | none => rfl
  | some p =>
    simp only [hget, Option.toList_some, List.singleton_append, List.mem_cons, Option.mem_toList,
      forall_eq_or_imp] at h ⊢
    obtain ⟨hp, hq⟩ := h
    simp only [hp 0, hp 2]
    cases hap : alive p.nodeId with
    | true => simp [hp 1, hap]
    | false =>
      cases hr : m.ring.getSuccessorForKey hashToInt key (some p.nodeId) with
      | none => simp [hap]
      | some x => cases hax : alive x.nodeId <;> simp [hq x hr 1, hap, hax]

@[simp] theorem replica_routeForKey (m : ClusterManager) (clock : Clock) (key : String) :
    (m.routeForKey hashToInt clock key).replica = (m.ring.ownerPair hashToInt key).2 := by
  rw [routeForKey, ConsistentHashRing.ownerPair]
  cases m.ring.getNode hashToInt key with
  | none => rfl
  | some p =>
    dsimp only
    split
    · rfl
    · split_ifs <;> rfl

/-- The node that serves a key is an owner of it. -/
theorem mem_owners_of_servedBy {m : ClusterManager} {clock : Clock} {key : String}
    {node : NodeConfig} (h : (m.routeForKey hashToInt clock key).servedBy = some node) :
    node ∈ m.ring.owners hashToInt key := by
  rw [ConsistentHashRing.owners, ConsistentHashRing.ownerPair]
  rw [routeForKey] at h
  cases hget : m.ring.getNode hashToInt key with
  | none =>
    rw [hget] at h
    cases h
  | some p =>
    rw [hget] at h
    dsimp only at h ⊢
    rw [List.mem_append, Option.mem_toList, Option.mem_toList]
    cases hchosen : (if m.isAlive (clock 0) p.nodeId then some p
        else m.ring.getSuccessorForKey hashToInt key (some p.nodeId)) with
    | none =>
      rw [hchosen] at h
      cases h
    | some chosen =>
      have howner : some p = some chosen ∨
          m.ring.getSuccessorForKey hashToInt key (some p.nodeId) = some chosen := by
        split_ifs at hchosen
        · exact Or.inl hchosen
        · exact Or.inr hchosen
      rw [hchosen] at h
      dsimp only at h
      split_ifs at h
      · obtain rfl := Option.some.inj h
        exact howner
      · exact Or.inl h

/-- The second live owner is the one that a call turns to after the serving node. -/
theorem otherOwner_routeForKey {m : ClusterManager} (clock : Clock) {key : String}
    {alive : String → Bool} {target : NodeConfig} {rest : List NodeConfig}
    (h : m.liveOwners hashToInt alive key = target :: rest) :
    ((m.routeForKey hashToInt clock key).replica.filter fun replica =>
      decide (replica.nodeId ≠ target.nodeId) && alive replica.nodeId) = rest.head? := by
  have hnodup := ConsistentHashRing.nodup_ownerIds hashToInt m.ring key
  rw [replica_routeForKey]
  rw [liveOwners] at h
  rw [ConsistentHashRing.ownerIds] at hnodup
  rw [ConsistentHashRing.owners] at h hnodup
  generalize m.ring.ownerPair hashToInt key = pair at h hnodup ⊢
  obtain ⟨p, q⟩ := pair
  cases q with
  | none =>
    cases p with
    | none => simp at h
    | some x =>
      cases hx : alive x.nodeId with
      | false => simp [hx] at h
      | true =>
        obtain ⟨-, rfl⟩ : x = target ∧ [] = rest := by simpa [hx] using h
        rfl
  | some y =>
    cases p with
    | none =>
      cases hy : alive y.nodeId with
      | false => simp [hy] at h
      | true =>
        obtain ⟨rfl, rfl⟩ : y = target ∧ [] = rest := by simpa [hy] using h
        simp [Option.filter]
    | some x =>
      have hne : y.nodeId ≠ x.nodeId := by simpa using Ne.symm (List.pairwise_pair.mp hnodup)
      cases hx : alive x.nodeId with
      | false =>
        cases hy : alive y.nodeId with
        | false => simp [hx, hy] at h
        | true =>
          obtain ⟨rfl, rfl⟩ : y = target ∧ [] = rest := by simpa [hx, hy] using h
          simp [Option.filter]
      | true =>
        cases hy : alive y.nodeId with
        | false =>
          obtain ⟨rfl, rfl⟩ : x = target ∧ [] = rest := by simpa [hx, hy] using h
          simp [Option.filter, hy]
        | true =>
          obtain ⟨rfl, rfl⟩ : x = target ∧ [y] = rest := by simpa [hx, hy] using h
          simp [Option.filter, hy, hne]

end ClusterManager

end DistributedCache
