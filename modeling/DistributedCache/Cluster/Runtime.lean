import DistributedCache.Cache.Store

/-!
# The runtime of a node

A runtime pairs a store with the record of its node and the time of its last activity. Each
local operation reads the clock for the store first (`clock 0`) and for the heartbeat after it
(`clock 1`).

Source: `distributed_cache/cluster/runtime.py`.
-/

namespace DistributedCache

open Library

variable {V : Type*}

structure NodeRuntime (V : Type*) where
  config : NodeConfig
  store : CacheStore V
  lastHeartbeatAt : Time

/-- The answer of `NodeRuntime.snapshot`. -/
structure NodeSnapshot (V : Type*) where
  nodeId : String
  keys : List (String × Option V)
  entries : OrderedDict String (CacheEntry V)
  size : ℕ
  lastHeartbeatAt : Time

namespace NodeRuntime

/-- `NodeRuntime.create(config, max_items)`. -/
def create (now : Time) (config : NodeConfig) (maxItems : ℕ) (h : 0 < maxItems) : NodeRuntime V :=
  ⟨config, .init maxItems h, now⟩

/-- `create` with the default capacity. -/
def createDefault (now : Time) (config : NodeConfig) : NodeRuntime V :=
  create now config 1024 (by decide)

def putLocal (rt : NodeRuntime V) (clock : Clock) (key : String) (value : Option V)
    (ttlSeconds : Option Time) : OperationResult × NodeRuntime V :=
  (⟨true, 200, "stored"⟩,
    { rt with store := rt.store.put (clock 0) key value ttlSeconds, lastHeartbeatAt := clock 1 })

/-- `get_local`: a stored `None` counts as not found. -/
def getLocal (rt : NodeRuntime V) (clock : Clock) (key : String) :
    (Bool × Option V) × NodeRuntime V :=
  let (value, store) := rt.store.get (clock 0) key
  ((value.isSome, value), { rt with store := store, lastHeartbeatAt := clock 1 })

def deleteLocal (rt : NodeRuntime V) (clock : Clock) (key : String) :
    OperationResult × NodeRuntime V :=
  let (deleted, store) := rt.store.delete key
  (if deleted then ⟨true, 200, "deleted"⟩ else ⟨false, 404, "not found"⟩,
    { rt with store := store, lastHeartbeatAt := clock 1 })

def heartbeat (rt : NodeRuntime V) (now : Time) : NodeRuntime V :=
  { rt with lastHeartbeatAt := now }

/-- `snapshot`; both the keys and the entries are read, and expired entries dropped, at `now`. -/
def snapshot (rt : NodeRuntime V) (now : Time) : NodeSnapshot V × NodeRuntime V :=
  let (items, store) := rt.store.items now
  let (entries, store) := store.snapshot now
  (⟨rt.config.nodeId, items, entries, store.size, rt.lastHeartbeatAt⟩, { rt with store := store })

/-- One pass of the cleanup thread of the store. -/
def cleanup (rt : NodeRuntime V) (now : Time) : NodeRuntime V :=
  { rt with store := rt.store.cleanup now }

end NodeRuntime

end DistributedCache
