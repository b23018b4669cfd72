import DistributedCache.Cluster.Rebalance

/-!
# The cluster service

The gateway routes each client call by the manager and carries it out through the transport. A
put writes the serving node before it answers and submits the write of the other owner to the
background loop; a topology change switches the ring at once and submits a rebalance. The state
holds, next to the manager and the transport, what the background loop still has to do.

A call that raises answers `none`. The readings of the clock inside a call are numbered in the
order of the source: the three of the routing first, then those of each transport call, of
`record_heartbeat` and of the liveness check of the second owner.

Source: `distributed_cache/cluster/service.py`.

## Main definitions

* `Response` : the dictionary a client call answers.
* `DistributedCacheCluster` : manager, transport and background work.
* `DistributedCacheCluster.put`, `.get`, `.delete`, `.heartbeat`, `.addNode`, `.removeNode`.
-/

namespace DistributedCache

open Library

variable {V : Type*}

/-- The answer of a client call; absent keys of the dictionary are `none`. -/
structure Response (V : Type*) where
  ok : Bool
  statusCode : ℕ
  message : Option String := none
  value : Option (Option V) := none
  servedBy : Option String := none
  deriving DecidableEq

/-- A write of the second owner on the background loop, `_replicate_async`. -/
structure ReplicaWrite (V : Type*) where
  node : NodeConfig
  key : String
  value : Option V
  ttlSeconds : Option Time
  deriving DecidableEq

/-- The gateway with the work that its background loop has not finished. -/
structure DistributedCacheCluster (V : Type*) where
  manager : ClusterManager
  transport : NodeTransport V
  /-- Replica writes that were submitted and have not taken effect. -/
  replicaWrites : List (ReplicaWrite V)
  /-- All rebalances, in the order of their submission. -/
  rebalances : List (RebalanceTask V)
  /-- `_rebalance_future`: the rebalance submitted last. -/
  rebalanceFuture : Option ℕ

namespace DistributedCacheCluster

/-- `DistributedCacheCluster(manager, transport)`. -/
def init (manager : ClusterManager) (transport : NodeTransport V) : DistributedCacheCluster V :=
  ⟨manager, transport, [], [], none⟩

def noLiveNodes : Response V := { ok := false, statusCode := 503,
                                  message := some "cluster has no live nodes" }

def refused (result : OperationResult) : Response V :=
  { ok := false, statusCode := result.statusCode, message := some result.message }

/-- The second owner, when it is not the serving node and alive at the reading `now`. -/
def otherOwner (manager : ClusterManager) (now : Time) (routing : RoutingDecision)
    (target : NodeConfig) : Option NodeConfig :=
  routing.replica.filter fun replica =>
    decide (replica.nodeId ≠ target.nodeId) && manager.isAlive now replica.nodeId

/-- `_start_rebalance_task`: the future of the new rebalance replaces the one before. -/
def startRebalanceTask (c : DistributedCacheCluster V) (change : TopologyChange)
    (previousRing : ConsistentHashRing) : DistributedCacheCluster V :=
  { c with
    rebalances := c.rebalances ++ [⟨change, previousRing, .submitted⟩]
    rebalanceFuture := some c.rebalances.length }

def removeNode (c : DistributedCacheCluster V) (nodeId : String) :
    Option (Response V) × DistributedCacheCluster V :=
  if c.manager.getNode nodeId = none then
    (some { ok := false, statusCode := 404, message := some "unknown node" }, c)
  else
    (some { ok := true, statusCode := 202, message := some "rebalance started" },
      startRebalanceTask { c with manager := c.manager.removeNode nodeId } .remove
        c.manager.copyRing)

def heartbeat (c : DistributedCacheCluster V) (clock : Clock) (nodeId : String) :
    Option (Response V) × DistributedCacheCluster V :=
  match c.manager.getNode nodeId with
  | none => (some { ok := false, statusCode := 404, message := some "unknown node" }, c)
  | some node =>
    match c.transport.heartbeat (clock 0) node with
    | none => (none, c)
    | some transport =>
      (some { ok := true, statusCode := 200 },
        { c with transport := transport, manager := c.manager.recordHeartbeat (clock 1) nodeId })

section Hash

variable (hashToInt : String → ℕ)

def addNode (c : DistributedCacheCluster V) (clock : Clock) (node : NodeConfig)
    (runtime : Option (NodeRuntime V)) : Option (Response V) × DistributedCacheCluster V :=
  if c.manager.getNode node.nodeId ≠ none then
    (some { ok := false, statusCode := 409, message := some "node already exists" }, c)
  else
    (some { ok := true, statusCode := 202, message := some "rebalance started",
            servedBy := some node.nodeId },
      startRebalanceTask
        { c with
          transport := c.transport.registerNode (clock 0) node runtime
          manager := c.manager.addNode hashToInt (clock 1) node }
        .add c.manager.copyRing)

/-- The replica write that a put submits. -/
def replicaWriteOf (manager : ClusterManager) (now : Time) (routing : RoutingDecision)
    (target : NodeConfig) (key : String) (value : Option V) (ttlSeconds : Option Time) :
    List (ReplicaWrite V) :=
  match otherOwner manager now routing target with
  | none => []
  | some replica => [⟨replica, key, value, ttlSeconds⟩]

def put (c : DistributedCacheCluster V) (clock : Clock) (key : String) (value : Option V)
    (ttlSeconds : Option Time) : Option (Response V) × DistributedCacheCluster V :=
  let routing := c.manager.routeForKey hashToInt clock key
  match routing.servedBy with
  | none => (some noLiveNodes, c)
  | some target =>
    match c.transport.put (clock.after 3) target key value ttlSeconds with
    | none => (none, c)
    | some (result, transport) =>
      if result.ok then
        let manager := c.manager.recordHeartbeat (clock 5) target.nodeId
        (some { ok := true, statusCode := 200, servedBy := some target.nodeId },
          { c with
            manager := manager
            transport := transport
            replicaWrites := c.replicaWrites ++
              replicaWriteOf manager (clock 6) routing target key value ttlSeconds })
      else (some (refused result), { c with transport := transport })

def get (c : DistributedCacheCluster V) (clock : Clock) (key : String) :
    Option (Response V) × DistributedCacheCluster V :=
  let routing := c.manager.routeForKey hashToInt clock key
  match routing.servedBy with
  | none => (some noLiveNodes, c)
  | some target =>
    match c.transport.get (clock.after 3) target key with
    | none => (none, c)
    | some ((true, value), transport) =>
      (some { ok := true, statusCode := 200, value := some value,
              servedBy := some target.nodeId },
        { c with
          transport := transport
          manager := c.manager.recordHeartbeat (clock 5) target.nodeId })
    | some ((false, _), transport) =>
      let missing : Response V := { ok := false, statusCode := 404, message := some "not found" }
      match otherOwner c.manager (clock 6) routing target with
      | none => (some missing, { c with transport := transport })
      | some replica =>
        match transport.get (clock.after 7) replica key with
        | none => (none, { c with transport := transport })
        | some ((true, value), transport) =>
          (some { ok := true, statusCode := 200, value := some value,
                  servedBy := some replica.nodeId }, { c with transport := transport })
        | some ((false, _), transport) => (some missing, { c with transport := transport })

def delete (c : DistributedCacheCluster V) (clock : Clock) (key : String) :
    Option (Response V) × DistributedCacheCluster V :=
  let routing := c.manager.routeForKey hashToInt clock key
  match routing.servedBy with
  | none => (some noLiveNodes, c)
  | some target =>
    match c.transport.delete (clock.after 3) target key with
    | none => (none, c)
    | some (result, transport) =>
      if result.ok then
        let deleted : Response V :=
          { ok := true, statusCode := 200, servedBy := some target.nodeId }
        match otherOwner c.manager (clock 5) routing target with
        | none => (some deleted, { c with transport := transport })
        | some replica =>
          match transport.delete (clock.after 6) replica key with
          | none => (none, { c with transport := transport })
          | some (_, transport) => (some deleted, { c with transport := transport })
      else (some (refused result), { c with transport := transport })

end Hash

end DistributedCacheCluster

end DistributedCache
