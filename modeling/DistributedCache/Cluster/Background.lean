import DistributedCache.Cluster.Service

/-!
# The background loop and the runs of the gateway

The background loop carries out the submitted replica writes and the rebalances, one transport
call at a time and in no particular order; client calls come in between. A call to a node may be
carried out, be refused by the node or raise. The writers of the loop ignore both failures; a
failed snapshot ends its rebalance.

Source: `distributed_cache/cluster/service.py`, `_replicate_async`, `_run_rebalance_task`,
`_limited_put`, `_limited_delete` and the snapshot loop of the planners.

## Main definitions

* `BackgroundStep`, `DistributedCacheCluster.runBackground` : one step of the background loop.
* `Call`, `DistributedCacheCluster.serve` : one client call.
* `Event`, `DistributedCacheCluster.Step` : the transition relation of the gateway.
* `DistributedCacheCluster.Quiescent` : the background loop has nothing left to do.

## Main results

* `DistributedCacheCluster.runBackground_replicate`, `DistributedCacheCluster.runBackground_begin`,
  `DistributedCacheCluster.runBackground_snapshot`, `DistributedCacheCluster.runBackground_plan`,
  `DistributedCacheCluster.runBackground_migrate` : what a background step can do.
-/

namespace DistributedCache

open Library

variable {V : Type*}

/-- How a call of the background loop to a node goes. -/
inductive CallOutcome
  | carriedOut
  | refused
  | raised
  deriving DecidableEq

/-- A step of the background loop, with the readings of the clock that it makes. Replica writes,
rebalances and scheduled calls are picked by their index, so that any of them may be next. -/
inductive BackgroundStep
  | replicate (index : ℕ) (clock : Clock) (outcome : CallOutcome)
  | begin (index : ℕ)
  | snapshot (index : ℕ) (now : Time) (outcome : CallOutcome)
  | plan (index : ℕ) (now : Time) (clock : String → Clock)
  | migrate (index task : ℕ) (clock : Clock) (outcome : CallOutcome)
  | cleanup (nodeId : String) (now : Time)

inductive Call (V : Type*)
  | put (key : String) (value : Option V) (ttlSeconds : Option Time)
  | get (key : String)
  | delete (key : String)
  | heartbeat (nodeId : String)
  | addNode (node : NodeConfig) (runtime : Option (NodeRuntime V))
  | removeNode (nodeId : String)

/-- A client call, or a step of the background loop. -/
inductive Event (V : Type*)
  | call (clock : Clock) (call : Call V)
  | background (step : BackgroundStep)

namespace NodeTransport

/-- The put of `_replicate_async` and `_limited_put`: results and exceptions are ignored. -/
def limitedPut (t : NodeTransport V) (clock : Clock) (outcome : CallOutcome) (node : NodeConfig)
    (key : String) (value : Option V) (ttlSeconds : Option Time) : NodeTransport V :=
  match outcome with
  | .carriedOut =>
    match t.put clock node key value ttlSeconds with
    | none => t
    | some (_, t') => t'
  | .refused | .raised => t

/-- `_limited_delete`. -/
def limitedDelete (t : NodeTransport V) (clock : Clock) (outcome : CallOutcome)
    (node : NodeConfig) (key : String) : NodeTransport V :=
  match outcome with
  | .carriedOut =>
    match t.delete clock node key with
    | none => t
    | some (_, t') => t'
  | .refused | .raised => t

/-- A call that a rebalance scheduled. -/
def runTask (t : NodeTransport V) (clock : Clock) (outcome : CallOutcome) :
    MigrationTask V → NodeTransport V
  | .put node key value ttlSeconds => t.limitedPut clock outcome node key value ttlSeconds
  | .delete node key => t.limitedDelete clock outcome node key

/-- The snapshot of a node in the loop of a planner; both failures raise. -/
def trySnapshot (t : NodeTransport V) (now : Time) (outcome : CallOutcome) (node : NodeConfig) :
    Option (OrderedDict String (CacheEntry V) × NodeTransport V) :=
  match outcome with
  | .carriedOut => t.snapshot now node
  | .refused | .raised => none

/-- A cleanup pass of the store of a node. -/
def cleanup (t : NodeTransport V) (now : Time) (nodeId : String) : NodeTransport V :=
  match t.runtimes nodeId with
  | none => t
  | some rt => t.setRuntime nodeId (rt.cleanup now)

end NodeTransport

namespace DistributedCacheCluster

def setPhase (c : DistributedCacheCluster V) (index : ℕ) (task : RebalanceTask V)
    (phase : RebalancePhase V) : DistributedCacheCluster V :=
  { c with rebalances := c.rebalances.set index { task with phase := phase } }

section Hash

variable (hashToInt : String → ℕ)

/-- What the planner of a rebalance reads besides its snapshots. -/
def planInput (c : DistributedCacheCluster V) (task : RebalanceTask V)
    (currentRing : ConsistentHashRing) (snapshots : Snapshots V) (now : Time)
    (clock : String → Clock) : PlanInput V :=
  ⟨c.manager, task.previousRing, currentRing, snapshots, c.manager.getAllNodes, now, clock⟩

/-- One step of the background loop, where it can be taken. -/
def runBackground (c : DistributedCacheCluster V) :
    BackgroundStep → Option (DistributedCacheCluster V)
  | .replicate index clock outcome =>
    c.replicaWrites[index]?.map fun w =>
      { c with
        transport := c.transport.limitedPut clock outcome w.node w.key w.value w.ttlSeconds
        replicaWrites := c.replicaWrites.eraseIdx index }
  | .begin index =>
    c.rebalances[index]?.bind fun task =>
      match task.phase with
      | .submitted =>
        some (c.setPhase index task
          (.collecting c.manager.copyRing c.manager.getAllNodes .empty))
      | _ => none
  | .snapshot index now outcome =>
    c.rebalances[index]?.bind fun task =>
      match task.phase with
      | .collecting currentRing (node :: todo) snapshots =>
        match c.transport.trySnapshot now outcome node with
        | none => some (c.setPhase index task (.migrating currentRing []))
        | some (entries, transport) =>
          some ({ c with transport := transport }.setPhase index task
            (.collecting currentRing todo (snapshots.set node.nodeId entries)))
      | _ => none
  | .plan index now clock =>
    c.rebalances[index]?.bind fun task =>
      match task.phase with
      | .collecting currentRing [] snapshots =>
        some (c.setPhase index task
          (.migrating currentRing
            ((c.planInput task currentRing snapshots now clock).plan hashToInt task.change)))
      | _ => none
  | .migrate index i clock outcome =>
    c.rebalances[index]?.bind fun task =>
      match task.phase with
      | .migrating currentRing pending =>
        pending[i]?.map fun call =>
          { c with transport := c.transport.runTask clock outcome call }.setPhase index task
            (.migrating currentRing (pending.eraseIdx i))
      | _ => none
  | .cleanup nodeId now => some { c with transport := c.transport.cleanup now nodeId }

/-- One client call. -/
def serve (c : DistributedCacheCluster V) (clock : Clock) :
    Call V → Option (Response V) × DistributedCacheCluster V
  | .put key value ttlSeconds => c.put hashToInt clock key value ttlSeconds
  | .get key => c.get hashToInt clock key
  | .delete key => c.delete hashToInt clock key
  | .heartbeat nodeId => c.heartbeat clock nodeId
  | .addNode node runtime => c.addNode hashToInt clock node runtime
  | .removeNode nodeId => c.removeNode nodeId

/-- One event at the gateway. -/
def step (c : DistributedCacheCluster V) : Event V → Option (DistributedCacheCluster V)
  | .call clock call => some (c.serve hashToInt clock call).2
  | .background s => c.runBackground hashToInt s

end Hash

/-- The background loop has nothing left to do. -/
structure Quiescent (c : DistributedCacheCluster V) : Prop where
  replicaWrites : c.replicaWrites = []
  rebalances : ∀ task ∈ c.rebalances, task.Done

instance (task : RebalanceTask V) : Decidable task.Done :=
  match h : task.phase with
  | .migrating ring [] => isTrue (by rw [RebalanceTask.Done, h]; trivial)
  | .migrating ring (call :: pending) => isFalse (by rw [RebalanceTask.Done, h]; exact id)
  | .submitted => isFalse (by rw [RebalanceTask.Done, h]; exact id)
  | .collecting ring todo snapshots => isFalse (by rw [RebalanceTask.Done, h]; exact id)

instance (c : DistributedCacheCluster V) : Decidable c.Quiescent :=
  decidable_of_iff (c.replicaWrites.isEmpty = true ∧ ∀ task ∈ c.rebalances, task.Done)
    ⟨fun h => ⟨List.isEmpty_iff.mp h.1, h.2⟩, fun h => ⟨List.isEmpty_iff.mpr h.1, h.2⟩⟩

theorem done_iff {task : RebalanceTask V} :
    task.Done ↔ ∃ ring, task.phase = .migrating ring [] := by
  rw [RebalanceTask.Done]
  split
  · rename_i ring hphase
    exact ⟨fun _ => ⟨ring, hphase⟩, fun _ => trivial⟩
  · rename_i hphase
    exact ⟨False.elim, fun h => h.elim hphase⟩

/-- A step that takes one entry of a list leaves the others. -/
theorem mem_eraseIdx_of_ne {α : Type*} {l : List α} {i : ℕ} {a b : α} (ha : l[i]? = some a)
    (hb : b ∈ l) (hne : b ≠ a) : b ∈ l.eraseIdx i := by
  obtain ⟨j, hj⟩ := List.mem_iff_getElem?.mp hb
  refine List.mem_eraseIdx_iff_getElem?.mpr ⟨j, ?_, hj⟩
  rintro rfl
  exact hne (Option.some.inj (hj.symm.trans ha))

/-- What holds of all phases and of the new one holds when the phase of one rebalance changes. -/
theorem forall_setPhase {c : DistributedCacheCluster V} {P : RebalancePhase V → Prop}
    (h : ∀ task ∈ c.rebalances, P task.phase) {index : ℕ} {task : RebalanceTask V}
    {phase : RebalancePhase V} (hphase : P phase) :
    ∀ task' ∈ (c.setPhase index task phase).rebalances, P task'.phase := by
  intro task' htask'
  rcases List.mem_or_eq_of_mem_set htask' with hold | rfl
  · exact h task' hold
  · exact hphase

/-! ### What a background step can do -/

section Cases

variable {hashToInt : String → ℕ} {c c' : DistributedCacheCluster V}

theorem runBackground_replicate {index : ℕ} {clock : Clock} {outcome : CallOutcome}
    (h : c.runBackground hashToInt (.replicate index clock outcome) = some c') :
    ∃ w, c.replicaWrites[index]? = some w ∧ c' =
      { c with
        transport := c.transport.limitedPut clock outcome w.node w.key w.value w.ttlSeconds
        replicaWrites := c.replicaWrites.eraseIdx index } := by
  obtain ⟨w, hw, rfl⟩ := Option.map_eq_some_iff.mp h
  exact ⟨w, hw, rfl⟩

theorem runBackground_begin {index : ℕ} (h : c.runBackground hashToInt (.begin index) = some c') :
    ∃ task, c.rebalances[index]? = some task ∧ task.phase = .submitted ∧
      c' = c.setPhase index task
        (.collecting c.manager.copyRing c.manager.getAllNodes .empty) := by
  obtain ⟨task, htask, h⟩ := Option.bind_eq_some_iff.mp h
  split at h
  · rename_i hphase
    exact ⟨task, htask, hphase, (Option.some.inj h).symm⟩
  · cases h

theorem runBackground_snapshot {index : ℕ} {now : Time} {outcome : CallOutcome}
    (h : c.runBackground hashToInt (.snapshot index now outcome) = some c') :
    ∃ task currentRing node todo snapshots, c.rebalances[index]? = some task ∧
      task.phase = .collecting currentRing (node :: todo) snapshots ∧
      (c.transport.trySnapshot now outcome node = none ∧
          c' = c.setPhase index task (.migrating currentRing []) ∨
        ∃ entries transport, c.transport.trySnapshot now outcome node = some (entries, transport) ∧
          c' = { c with transport := transport }.setPhase index task
            (.collecting currentRing todo (snapshots.set node.nodeId entries))) := by
  obtain ⟨task, htask, h⟩ := Option.bind_eq_some_iff.mp h
  split at h
  · rename_i currentRing node todo snapshots hphase
    refine ⟨task, currentRing, node, todo, snapshots, htask, hphase, ?_⟩
    split at h
    · rename_i hsnap
      exact Or.inl ⟨hsnap, (Option.some.inj h).symm⟩
    · rename_i entries transport hsnap
      exact Or.inr ⟨entries, transport, hsnap, (Option.some.inj h).symm⟩
  · cases h

theorem runBackground_plan {index : ℕ} {now : Time} {clock : String → Clock}
    (h : c.runBackground hashToInt (.plan index now clock) = some c') :
    ∃ task currentRing snapshots, c.rebalances[index]? = some task ∧
      task.phase = .collecting currentRing [] snapshots ∧
      c' = c.setPhase index task
        (.migrating currentRing
          ((c.planInput task currentRing snapshots now clock).plan hashToInt task.change)) := by
  obtain ⟨task, htask, h⟩ := Option.bind_eq_some_iff.mp h
  split at h
  · rename_i currentRing snapshots hphase
    exact ⟨task, currentRing, snapshots, htask, hphase, (Option.some.inj h).symm⟩
  · cases h

theorem runBackground_migrate {index i : ℕ} {clock : Clock} {outcome : CallOutcome}
    (h : c.runBackground hashToInt (.migrate index i clock outcome) = some c') :
    ∃ task currentRing pending call, c.rebalances[index]? = some task ∧
      task.phase = .migrating currentRing pending ∧ pending[i]? = some call ∧
      c' = { c with transport := c.transport.runTask clock outcome call }.setPhase index task
        (.migrating currentRing (pending.eraseIdx i)) := by
  obtain ⟨task, htask, h⟩ := Option.bind_eq_some_iff.mp h
  split at h
  · rename_i currentRing pending hphase
    obtain ⟨call, hcall, rfl⟩ := Option.map_eq_some_iff.mp h
    exact ⟨task, currentRing, pending, call, htask, hphase, hcall, rfl⟩
  · cases h

end Cases

end DistributedCacheCluster

/-! ### Small clusters

Clusters of the nodes `"m"`, `"n"`, `"a"`, `"b"`, `"c"`, with one virtual node each, in this
order on the ring behind all keys. -/

def sampleHash (label : String) : ℕ :=
  if label = "m:0" then 1 else if label = "n:0" then 2 else if label = "a:0" then 3
  else if label = "b:0" then 4 else if label = "c:0" then 5 else 0

def sampleNode (nodeId : String) : NodeConfig := ⟨nodeId, "127.0.0.1", 8000⟩

def sampleRuntime (nodeId : String) : NodeRuntime ℕ := .createDefault 0 (sampleNode nodeId)

/-- The gateway of a small cluster with empty stores, started at time 0. -/
def sampleCluster (ids : List String) : DistributedCacheCluster ℕ :=
  .init (.init sampleHash (fun _ => 0) (ids.map sampleNode) 5 (by decide +kernel) 1 Nat.one_pos)
    ⟨.inProcess, fun nodeId => if nodeId ∈ ids then some (sampleRuntime nodeId) else none,
      fun _ => true⟩

theorem sampleCluster_reachable (ids : List String) :
    (sampleCluster ids).manager.Reachable sampleHash Set.univ :=
  ClusterManager.Reachable.init (fun _ => 0) (ids.map sampleNode) 5 (by decide +kernel) 1
    Nat.one_pos fun _ _ => Set.mem_univ _

theorem sampleCluster_quiescent (ids : List String) : (sampleCluster ids).Quiescent :=
  ⟨rfl, fun task htask => by cases htask⟩

end DistributedCache
