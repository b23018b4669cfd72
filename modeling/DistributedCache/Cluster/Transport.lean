import DistributedCache.Cluster.Runtime
import Mathlib.Logic.Function.Basic

/-!
# The transport between the gateway and the nodes

Both transports of the source carry the same five calls to the runtimes of the nodes. The
in-process one holds the runtimes and registers the runtime of a node that joins; the HTTP one
reaches runtimes that exist elsewhere and registers nothing. A call to a node without a runtime,
or to one that cannot be reached, raises: the model answers `none`.

Source: `distributed_cache/cluster/transport.py`, `distributed_cache/node_app.py`.

## Main definitions

* `NodeTransport`, and its calls `put`, `get`, `delete`, `heartbeat`, `snapshot`.
* `NodeTransport.registerNode` : what `register_node` does, where the transport has it.
-/

namespace DistributedCache

open Library

variable {V : Type*}

/-- The two transports: `InProcessNodeTransport` and `HttpNodeTransport`. -/
inductive TransportKind
  | inProcess
  | http
  deriving DecidableEq

structure NodeTransport (V : Type*) where
  kind : TransportKind
  /-- The runtimes by node id; over HTTP, those of the node processes. -/
  runtimes : String → Option (NodeRuntime V)
  /-- Whether calls to the node get through. -/
  reachable : String → Bool

namespace NodeTransport

/-- The runtime that a call to the node meets. -/
def runtime? (t : NodeTransport V) (nodeId : String) : Option (NodeRuntime V) :=
  if t.reachable nodeId then t.runtimes nodeId else none

def setRuntime (t : NodeTransport V) (nodeId : String) (rt : NodeRuntime V) : NodeTransport V :=
  { t with runtimes := Function.update t.runtimes nodeId (some rt) }

/-- `register_node(node, runtime)`; the HTTP transport has no such method. -/
def registerNode (t : NodeTransport V) (now : Time) (node : NodeConfig)
    (runtime : Option (NodeRuntime V)) : NodeTransport V :=
  match t.kind with
  | .inProcess => t.setRuntime node.nodeId (runtime.getD (.createDefault now node))
  | .http => t

/-- The message of a refused call: over HTTP it is the text of the error response. The text of
the other responses, which no caller reads, is left out (`HttpNodeTransport.text` has it). -/
def refusal (t : NodeTransport V) (result : OperationResult) : OperationResult :=
  match t.kind with
  | .inProcess => result
  | .http =>
    if result.ok then result
    else { result with message := "\x7b\"detail\":\"" ++ result.message ++ "\"\x7d" }

def put (t : NodeTransport V) (clock : Clock) (node : NodeConfig) (key : String)
    (value : Option V) (ttlSeconds : Option Time) : Option (OperationResult × NodeTransport V) :=
  (t.runtime? node.nodeId).map fun rt =>
    let (result, rt) := rt.putLocal clock key value ttlSeconds
    (t.refusal result, t.setRuntime node.nodeId rt)

def get (t : NodeTransport V) (clock : Clock) (node : NodeConfig) (key : String) :
    Option ((Bool × Option V) × NodeTransport V) :=
  (t.runtime? node.nodeId).map fun rt =>
    let (answer, rt) := rt.getLocal clock key
    (answer, t.setRuntime node.nodeId rt)

def delete (t : NodeTransport V) (clock : Clock) (node : NodeConfig) (key : String) :
    Option (OperationResult × NodeTransport V) :=
  (t.runtime? node.nodeId).map fun rt =>
    let (result, rt) := rt.deleteLocal clock key
    (t.refusal result, t.setRuntime node.nodeId rt)

def heartbeat (t : NodeTransport V) (now : Time) (node : NodeConfig) :
    Option (NodeTransport V) :=
  (t.runtime? node.nodeId).map fun rt => t.setRuntime node.nodeId (rt.heartbeat now)

/-- `snapshot(node)["entries"]`. -/
def snapshot (t : NodeTransport V) (now : Time) (node : NodeConfig) :
    Option (OrderedDict String (CacheEntry V) × NodeTransport V) :=
  (t.runtime? node.nodeId).map fun rt =>
    let (snapshot, rt) := rt.snapshot now
    (snapshot.entries, t.setRuntime node.nodeId rt)

end NodeTransport

end DistributedCache
