import DistributedCache.Cluster.Lookup
import DistributedCache.Library.Relocation

/-!
# The gateway as one key sees it

Seen from one key, the nodes either have a copy or not, and each rebalance is a job that moves
the copies from the owners on its previous ring to those on the ring that it read.

## Main definitions

* `DistributedCacheCluster.keyView` : the state of the relocation machine for a key.
* `DistributedCacheCluster.actionOf` : what a background step does for a key.
* `DistributedCacheCluster.Healthy` : members and ring agree, members answer, no lifetimes.
* `DistributedCacheCluster.NoEviction` : the put that an event carries out evicts nothing.

## Main results

* `PlanInput.plans_plan` : the planner plans what the relocation machine allows.
-/

namespace DistributedCache

open Library Library.Relocation

variable {V : Type*}

section Definitions

variable (hashToInt : String → ℕ) (key : String)

/-- The owners of a key as a set, `{node.node_id for node in (primary, replica) if node}`. -/
def ConsistentHashRing.ownerSet (r : ConsistentHashRing) : Finset String :=
  (r.ownerIds hashToInt key).toFinset

/-- What a scheduled call writes for the key. -/
def MigrationTask.write : MigrationTask V → Option (Write String (CacheEntry V))
  | .put node k value _ => if k = key then some ⟨node.nodeId, some ⟨value, none⟩⟩ else none
  | .delete node k => if k = key then some ⟨node.nodeId, none⟩ else none

/-- What a replica write writes for the key. -/
def ReplicaWrite.write (w : ReplicaWrite V) : Option (Write String (CacheEntry V)) :=
  if w.key = key then some ⟨w.node.nodeId, some ⟨w.value, none⟩⟩ else none

/-- The writes for the key among scheduled calls. -/
def pendingWrites (pending : List (MigrationTask V)) : Set (Write String (CacheEntry V)) :=
  {w | ∃ call ∈ pending, call.write key = some w}

/-- What the snapshots say about the key. -/
def Snapshots.seen (snapshots : Snapshots V) (nodeId : String) : Option (Option (CacheEntry V)) :=
  (snapshots.get? nodeId).map fun entries => entries.get? key

def RebalancePhase.view : RebalancePhase V → Phase String (CacheEntry V)
  | .submitted => .waiting
  | .collecting currentRing todo snapshots =>
    .reading (currentRing.ownerSet hashToInt key) (todo.map NodeConfig.nodeId)
      (snapshots.seen key)
  | .migrating currentRing pending =>
    .writing (currentRing.ownerSet hashToInt key) (pendingWrites key pending)

def RebalanceTask.view (task : RebalanceTask V) : Job String (CacheEntry V) :=
  ⟨task.previousRing.ownerSet hashToInt key, task.phase.view hashToInt key⟩

namespace DistributedCacheCluster

/-- The gateway as the key sees it. -/
def keyView (c : DistributedCacheCluster V) : State String (CacheEntry V) where
  members := c.manager.nodes.keys
  goal := c.manager.ring.ownerSet hashToInt key
  hold nodeId := c.transport.lookup nodeId key
  jobs := c.rebalances.map (RebalanceTask.view hashToInt key)

/-- The scheduled call that a migrate step picks. -/
def scheduledCall (c : DistributedCacheCluster V) (index i : ℕ) : Option (MigrationTask V) :=
  c.rebalances[index]?.bind fun task =>
    match task.phase with
    | .migrating _ pending => pending[i]?
    | _ => none

theorem scheduledCall_eq {c : DistributedCacheCluster V} {index i : ℕ} {task : RebalanceTask V}
    {ring : ConsistentHashRing} {pending : List (MigrationTask V)} {call : MigrationTask V}
    (htask : c.rebalances[index]? = some task) (hphase : task.phase = .migrating ring pending)
    (hcall : pending[i]? = some call) : c.scheduledCall index i = some call := by
  rw [scheduledCall, htask, Option.bind_some]
  simp only [hphase, hcall]

/-- What a background step does for the key; `none` where it does nothing. -/
def actionOf (c : DistributedCacheCluster V) :
    BackgroundStep → Option (Action String (CacheEntry V))
  | .replicate index _ outcome =>
    if outcome = .carriedOut then (c.replicaWrites[index]?.bind (·.write key)).map .store
    else none
  | .begin index => some (.begin index)
  | .snapshot index _ outcome =>
    some (if outcome = .carriedOut then .read index else .abort index)
  | .plan index _ _ => some (.plan index)
  | .migrate index i _ outcome =>
    ((c.scheduledCall index i).bind (·.write key)).map fun w =>
      if outcome = .carriedOut then .perform index w else .skip index w
  | .cleanup _ _ => none

/-- The node and the key of the put that an event carries out. -/
def putCell (c : DistributedCacheCluster V) : Event V → Option (String × String)
  | .call clock (.put key _ _) =>
    (c.manager.routeForKey hashToInt clock key).servedBy.map fun node => (node.nodeId, key)
  | .background (.replicate index _ .carriedOut) =>
    c.replicaWrites[index]?.map fun w => (w.node.nodeId, w.key)
  | .background (.migrate index i _ .carriedOut) =>
    (c.scheduledCall index i).bind fun call =>
      match call with
      | .put node key _ _ => some (node.nodeId, key)
      | .delete _ _ => none
  | _ => none

/-- The put that the event carries out evicts nothing. -/
def NoEviction (c : DistributedCacheCluster V) (e : Event V) : Prop :=
  ∀ cell ∈ c.putCell hashToInt e, c.transport.HasRoom cell.1 cell.2

instance (c : DistributedCacheCluster V) (e : Event V) : Decidable (c.NoEviction hashToInt e) := by
  unfold NoEviction
  infer_instance

end DistributedCacheCluster

end Definitions

/-! ### Healthy clusters -/

/-- No copy in the snapshots and no scheduled put has a lifetime. -/
def RebalancePhase.NoTtl : RebalancePhase V → Prop
  | .submitted => True
  | .collecting _ _ snapshots => ∀ nodeId key entry,
      snapshots.seen key nodeId = some (some entry) → entry.expiresAt = none
  | .migrating _ pending => ∀ node key value ttlSeconds,
      .put node key value ttlSeconds ∈ pending → ttlSeconds = none

/-- The node of a scheduled call. -/
def MigrationTask.nodeId : MigrationTask V → String
  | .put node _ _ _ => node.nodeId
  | .delete node _ => node.nodeId

def MigrationTask.key : MigrationTask V → String
  | .put _ key _ _ => key
  | .delete _ key => key

/-- The nodes that a rebalance still has to call. -/
def RebalancePhase.targets : RebalancePhase V → List String
  | .submitted => []
  | .collecting _ todo _ => todo.map NodeConfig.nodeId
  | .migrating _ pending => pending.map MigrationTask.nodeId

namespace DistributedCacheCluster

/-- Nothing stored, submitted or scheduled has a lifetime. -/
structure NoTtl (c : DistributedCacheCluster V) : Prop where
  transport : c.transport.NoTtl
  replicaWrites : ∀ w ∈ c.replicaWrites, w.ttlSeconds = none
  rebalances : ∀ task ∈ c.rebalances, task.phase.NoTtl

/-- Members and ring agree, all members answer, all background work is about members, and
nothing has a lifetime. -/
structure Healthy (hashToInt : String → ℕ) (c : DistributedCacheCluster V) : Prop where
  coherent : c.manager.Coherent hashToInt
  noTtl : c.NoTtl
  answers : ∀ nodeId ∈ c.manager.nodes, c.transport.Answers nodeId
  replicaTargets : ∀ w ∈ c.replicaWrites, w.node.nodeId ∈ c.manager.nodes
  targets : ∀ task ∈ c.rebalances, ∀ nodeId ∈ task.phase.targets, nodeId ∈ c.manager.nodes

end DistributedCacheCluster

variable {hashToInt : String → ℕ} {key : String}

theorem ClusterManager.Coherent.map_nodeId_getAllNodes {m : ClusterManager}
    (h : m.Coherent hashToInt) : m.getAllNodes.map NodeConfig.nodeId = m.nodes.keys := by
  rw [getAllNodes, OrderedDict.values, OrderedDict.keys, List.map_map]
  refine List.map_congr_left fun p hp => ?_
  exact h.key_eq p.1 p.2 (OrderedDict.get?_eq_some_iff.mpr hp)

theorem ClusterManager.Coherent.mem_of_mem_ownerIds {m : ClusterManager}
    (h : m.Coherent hashToInt) {nodeId : String}
    (hmem : nodeId ∈ m.ring.ownerIds hashToInt key) : nodeId ∈ m.nodes := by
  obtain ⟨node, hnode, rfl⟩ := ConsistentHashRing.mem_ownerIds hashToInt |>.mp hmem
  exact OrderedDict.mem_iff_exists_get?.mpr ⟨node, h.get?_nodes_of_mem_owners hnode⟩

@[simp] theorem ConsistentHashRing.mem_ownerSet {r : ConsistentHashRing} {nodeId : String} :
    nodeId ∈ r.ownerSet hashToInt key ↔ nodeId ∈ r.ownerIds hashToInt key := List.mem_toFinset

theorem ConsistentHashRing.ownerSet_nonempty {r : ConsistentHashRing} :
    (r.ownerSet hashToInt key).Nonempty ↔ (r.ownerPair hashToInt key).1.isSome := by
  rw [ownerSet, List.toFinset_nonempty_iff, ownerIds, owners, ownerPair]
  cases r.getNode hashToInt key <;> simp

theorem pendingWrites_nil : pendingWrites key ([] : List (MigrationTask V)) = ∅ := by
  refine Set.eq_empty_of_forall_notMem ?_
  rintro w ⟨call, hcall, -⟩
  cases hcall

theorem sees_seen {snapshots : Snapshots V} {nodeId : String} :
    Sees (snapshots.seen key) nodeId ↔ snapshots.Holds nodeId key := by
  rw [Sees, Snapshots.Holds, Snapshots.seen]
  cases snapshots.get? nodeId with
  | none => simp
  | some entries => simp [OrderedDict.mem_iff_exists_get?]

theorem seen_eq_some {snapshots : Snapshots V} {nodeId : String} {entry : CacheEntry V} :
    snapshots.seen key nodeId = some (some entry) ↔
      ∃ entries, snapshots.get? nodeId = some entries ∧ entries.get? key = some entry := by
  rw [Snapshots.seen, Option.map_eq_some_iff]

/-! ### The planner -/

namespace PlanInput

variable {x : PlanInput V} {change : TopologyChange}

theorem source_eq_some {entry : CacheEntry V}
    (h : x.source hashToInt change key = some entry) :
    ∃ nodeId, x.snapshots.seen key nodeId = some (some entry) := by
  simp only [seen_eq_some]
  cases change with
  | add =>
    rcases Option.or_eq_some_iff.mp h with h | ⟨-, h⟩
    · exact getEntrySnapshot_eq_some h
    · exact getFirstEntrySnapshot_eq_some h
  | remove =>
    rcases Option.or_eq_some_iff.mp h with h | ⟨-, h⟩
    · rcases Option.or_eq_some_iff.mp h with h | ⟨-, h⟩
      · exact getEntrySnapshot_eq_some h
      · exact getEntrySnapshot_eq_some h
    · exact getFirstEntrySnapshot_eq_some h

theorem isSome_source {nodeId : String} (h : x.snapshots.Holds nodeId key) :
    (x.source hashToInt change key).isSome := by
  have hfirst := isSome_getFirstEntrySnapshot h
  cases change <;>
    simp only [source, sourceAfterAdd, sourceAfterRemove, Option.isSome_or, hfirst, Bool.or_true]

theorem ownersChange_iff : x.OwnersChange hashToInt key ↔
    Moves (x.previousRing.ownerSet hashToInt key) (x.currentRing.ownerSet hashToInt key) := by
  rw [OwnersChange, Moves, ConsistentHashRing.ownerSet_nonempty,
    ConsistentHashRing.ownerSet_nonempty]
  rfl

/-- A call for the key is scheduled only if its owners change and a copy was seen. -/
theorem exists_migration {call : MigrationTask V} (hcall : call ∈ x.plan hashToInt change)
    {w : Write String (CacheEntry V)} (hw : call.write key = some w) :
    key ∈ storedKeys x.snapshots ∧ (x.migration hashToInt change key).isSome := by
  cases call with
  | put node k value ttlSeconds =>
    rw [MigrationTask.write] at hw
    split_ifs at hw with hk
    obtain ⟨hstored, entry, nodeId, hm, -⟩ := put_mem_plan_iff.mp hcall
    rw [hk] at hstored hm
    exact ⟨hstored, by rw [hm]; rfl⟩
  | delete node k =>
    rw [MigrationTask.write] at hw
    split_ifs at hw with hk
    obtain ⟨hstored, nodeId, hm, -⟩ := delete_mem_plan_iff.mp hcall
    rw [hk] at hstored hm
    exact ⟨hstored, hm⟩

/-- What the planner schedules for a key that moves is planned by the relocation machine. -/
theorem mem_planned_of_mem_plan (hnodup : (x.nodes.map NodeConfig.nodeId).Nodup)
    {entry : CacheEntry V} (hexpires : entry.expiresAt = none)
    (hm : x.migration hashToInt change key = some (entry, none)) {call : MigrationTask V}
    (hcall : call ∈ x.plan hashToInt change) {w : Write String (CacheEntry V)}
    (hw : call.write key = some w) :
    w ∈ planned (x.currentRing.ownerSet hashToInt key) (x.nodes.map NodeConfig.nodeId)
      (x.snapshots.seen key) entry := by
  have hentry : entry = ⟨entry.value, none⟩ := by rw [← hexpires]
  have hmem : ∀ nodeId node, (nodesById x.nodes).get? nodeId = some node →
      node.nodeId = nodeId ∧ nodeId ∈ x.nodes.map NodeConfig.nodeId := by
    intro nodeId node hnode
    obtain ⟨hnodes, rfl⟩ := (get?_nodesById hnodup).mp hnode
    exact ⟨rfl, List.mem_map_of_mem hnodes⟩
  cases call with
  | put node k value ttlSeconds =>
    rw [MigrationTask.write] at hw
    split_ifs at hw with hk
    obtain rfl := Option.some.inj hw
    obtain ⟨-, entry', nodeId', hm', rfl, howner, hnode, hnot⟩ := put_mem_plan_iff.mp hcall
    rw [hk] at hm' howner hnot
    rw [hm] at hm'
    obtain ⟨hnodeId, hmember⟩ := hmem _ _ hnode
    obtain rfl := (Prod.mk.inj (Option.some.inj hm')).1
    rw [← hnodeId] at howner hmember hnot
    refine ⟨?_, hmember, ?_⟩
    · rw [Write.Toward, if_pos (ConsistentHashRing.mem_ownerSet.mpr howner), ← hentry]
    · rw [ConsistentHashRing.mem_ownerSet, sees_seen]
      exact ⟨fun _ => hnot, fun _ => howner⟩
  | delete node k =>
    rw [MigrationTask.write] at hw
    split_ifs at hw with hk
    obtain rfl := Option.some.inj hw
    obtain ⟨-, nodeId', -, howner, hnode, hholds'⟩ := delete_mem_plan_iff.mp hcall
    rw [hk] at howner hholds'
    obtain ⟨hnodeId, hmember⟩ := hmem _ _ hnode
    rw [← hnodeId] at howner hmember hholds'
    refine ⟨?_, hmember, ?_⟩
    · rw [Write.Toward, if_neg fun h => howner (ConsistentHashRing.mem_ownerSet.mp h)]
    · rw [ConsistentHashRing.mem_ownerSet, sees_seen]
      exact ⟨fun h => absurd h howner, fun h => absurd hholds' h⟩

/-- The planner schedules all that the relocation machine plans for a key that moves. -/
theorem mem_pendingWrites_of_planned (hnodup : (x.nodes.map NodeConfig.nodeId).Nodup)
    {entry : CacheEntry V} (hexpires : entry.expiresAt = none)
    (hm : x.migration hashToInt change key = some (entry, none))
    (hstored : key ∈ storedKeys x.snapshots) {w : Write String (CacheEntry V)}
    (hw : w ∈ planned (x.currentRing.ownerSet hashToInt key) (x.nodes.map NodeConfig.nodeId)
      (x.snapshots.seen key) entry) : w ∈ pendingWrites key (x.plan hashToInt change) := by
  have hentry : entry = ⟨entry.value, none⟩ := by rw [← hexpires]
  obtain ⟨htoward, hmember, hdiff⟩ := hw
  obtain ⟨node, hnode, hnodeId⟩ := List.mem_map.mp hmember
  have hget : (nodesById x.nodes).get? w.node = some node :=
    (get?_nodesById hnodup).mpr ⟨hnode, hnodeId⟩
  rw [ConsistentHashRing.mem_ownerSet, sees_seen] at hdiff
  rw [Write.Toward] at htoward
  split_ifs at htoward with howner
  · rw [ConsistentHashRing.mem_ownerSet] at howner
    refine ⟨.put node key entry.value none, put_mem_plan_iff.mpr ⟨hstored, entry, w.node,
      hm, rfl, howner, hget, hdiff.mp howner⟩, ?_⟩
    rw [MigrationTask.write, if_pos rfl, hnodeId, ← hentry, ← htoward]
  · rw [ConsistentHashRing.mem_ownerSet] at howner
    refine ⟨.delete node key, delete_mem_plan_iff.mpr ⟨hstored, w.node, by rw [hm]; rfl,
      howner, hget, not_not.mp fun h => howner (hdiff.mpr h)⟩, ?_⟩
    rw [MigrationTask.write, if_pos rfl, hnodeId, ← htoward]

/-- The planner plans what the relocation machine allows. -/
theorem plans_plan (hnodup : (x.nodes.map NodeConfig.nodeId).Nodup)
    (httl : ∀ nodeId entry, x.snapshots.seen key nodeId = some (some entry) →
      entry.expiresAt = none) :
    Plans (x.previousRing.ownerSet hashToInt key) (x.currentRing.ownerSet hashToInt key)
      (x.nodes.map NodeConfig.nodeId) (x.snapshots.seen key)
      (pendingWrites key (x.plan hashToInt change)) := by
  by_cases hidle : x.OwnersChange hashToInt key → ∀ nodeId, ¬x.snapshots.Holds nodeId key
  · have hempty : pendingWrites key (x.plan hashToInt change) = ∅ := by
      refine Set.eq_empty_of_forall_notMem ?_
      rintro w ⟨call, hcall, hw⟩
      obtain ⟨hstored, hm⟩ := exists_migration hcall hw
      rw [migration] at hm
      split_ifs at hm with hchange
      · obtain ⟨nodeId, hholds⟩ := mem_storedKeys.mp hstored
        exact hidle hchange nodeId hholds
      · simp at hm
    rw [hempty]
    exact .idle fun hmoves nodeId hsees => hidle (ownersChange_iff.mpr hmoves) nodeId
      (sees_seen.mp hsees)
  · push Not at hidle
    obtain ⟨hchange, nodeId, hholds⟩ := hidle
    have hsome : (x.source hashToInt change key).isSome := isSome_source hholds
    obtain ⟨entry, hsource⟩ := Option.isSome_iff_exists.mp hsome
    obtain ⟨source, hseen⟩ := source_eq_some hsource
    have hexpires := httl source entry hseen
    have hm : x.migration hashToInt change key = some (entry, none) := by
      rw [migration, if_pos hchange, hsource, Option.bind_some, hexpires]
      rfl
    have hplanned : pendingWrites key (x.plan hashToInt change) =
        planned (x.currentRing.ownerSet hashToInt key) (x.nodes.map NodeConfig.nodeId)
          (x.snapshots.seen key) entry := by
      ext w
      constructor
      · rintro ⟨call, hcall, hw⟩
        exact mem_planned_of_mem_plan hnodup hexpires hm hcall hw
      · exact mem_pendingWrites_of_planned hnodup hexpires hm
          (mem_storedKeys.mpr ⟨nodeId, hholds⟩)
    rw [hplanned]
    exact .move (ownersChange_iff.mp hchange) hseen

end PlanInput

end DistributedCache
