import DistributedCache.Cluster.Manager
import DistributedCache.Cluster.Transport
import Mathlib.Data.Finset.Dedup
import Mathlib.Data.List.Dedup
import Mathlib.Data.String.Basic

/-!
# The rebalance planners

After a topology change a background task reads the ring and a snapshot of every member, and
plans for each stored key whose set of owners changed: a put to each new owner that lacks the
key, and a delete on each member that holds it without owning it. The planners after an addition
and after a removal differ only in the copy they take as source.

Source: `distributed_cache/cluster/service.py`, `_rebalance_after_add` and
`_rebalance_after_remove` with their helpers.

## Main definitions

* `MigrationTask` : a call scheduled by a rebalance.
* `PlanInput` : what a planner reads.
* `PlanInput.sourceAfterAdd`, `PlanInput.sourceAfterRemove` : the two source selections.
* `PlanInput.migration`, `PlanInput.plan` : the entry that is copied, and the scheduled calls.
* `RebalanceTask` : a rebalance as a background task.

## Main results

* `PlanInput.put_mem_plan_iff`, `PlanInput.delete_mem_plan_iff` : the scheduled calls.
-/

namespace DistributedCache

open Library

variable {V : Type*}

/-- A call of a rebalance: `_limited_put` or `_limited_delete`. -/
inductive MigrationTask (V : Type*)
  | put (node : NodeConfig) (key : String) (value : Option V) (ttlSeconds : Option Time)
  | delete (node : NodeConfig) (key : String)
  deriving DecidableEq

/-- The entries of every member that answered, in the order in which they were read. -/
abbrev Snapshots (V : Type*) : Type _ := OrderedDict String (OrderedDict String (CacheEntry V))

/-- Whether `key in snapshots.get(node_id, {})`. -/
def Snapshots.Holds (snapshots : Snapshots V) (nodeId key : String) : Prop :=
  ∃ entries, snapshots.get? nodeId = some entries ∧ key ∈ entries

instance (snapshots : Snapshots V) (nodeId key : String) :
    Decidable (snapshots.Holds nodeId key) :=
  match h : snapshots.get? nodeId with
  | none => isFalse fun ⟨_, h', _⟩ => by simp [h] at h'
  | some entries =>
    if hk : key ∈ entries then isTrue ⟨entries, h, hk⟩
    else isFalse fun ⟨_, h', hk'⟩ => hk (Option.some.inj (h.symm.trans h') ▸ hk')

/-- `_get_entry_snapshot`. -/
def getEntrySnapshot (snapshots : Snapshots V) (key : String) (nodeId : Option String) :
    Option (CacheEntry V) :=
  nodeId.bind fun nodeId => (snapshots.get? nodeId).bind fun entries => entries.get? key

/-- `_get_first_entry_snapshot`. -/
def getFirstEntrySnapshot (snapshots : Snapshots V) (key : String) : Option (CacheEntry V) :=
  snapshots.values.findSome? fun entries => entries.get? key

/-- The stored keys, `sorted(key_locations)`. -/
def storedKeys (snapshots : Snapshots V) : List String :=
  (snapshots.values.flatMap OrderedDict.keys).dedup.insertionSort (· ≤ ·)

/-- `{node.node_id: node for node in nodes}`. -/
def nodesById (nodes : List NodeConfig) : OrderedDict String NodeConfig :=
  nodes.foldl (fun d node => d.set node.nodeId node) .empty

/-- The lifetime a copied entry is given: `none` for an entry whose time is up, which is not
copied, and `some none` for an entry without a lifetime. -/
def migratedTtl (expiresAt : Option Time) (now : Time) : Option (Option Time) :=
  match expiresAt with
  | none => some none
  | some expiresAt =>
    let ttlSeconds := max (expiresAt - now) 0
    if ttlSeconds ≤ 0 then none else some (some ttlSeconds)

/-- What a planner reads: the manager for its liveness checks, the two rings, the snapshots and
the members. `now` is its one reading of the clock for lifetimes, and `clock key` are the
readings of the liveness checks made for a key. -/
structure PlanInput (V : Type*) where
  manager : ClusterManager
  previousRing : ConsistentHashRing
  currentRing : ConsistentHashRing
  snapshots : Snapshots V
  nodes : List NodeConfig
  now : Time
  clock : String → Clock

/-- The change that a rebalance answers. -/
inductive TopologyChange
  | add
  | remove
  deriving DecidableEq

namespace PlanInput

variable (hashToInt : String → ℕ) (x : PlanInput V)

/-- `_source_node_id_for_key` on the previous ring. A replica is answered whether it is alive
or not. -/
def sourceNodeIdForKey (key : String) : Option String :=
  match x.previousRing.ownerPair hashToInt key with
  | (none, _) => none
  | (some primary, replica) =>
    if x.manager.isAlive (x.clock key 0) primary.nodeId then some primary.nodeId
    else
      match replica with
      | some replica => some replica.nodeId
      | none => some primary.nodeId

/-- The source of `_rebalance_after_add`: the copy of the old primary if that is alive, else of
the old replica, else the first one found. -/
def sourceAfterAdd (key : String) : Option (CacheEntry V) :=
  (getEntrySnapshot x.snapshots key (x.sourceNodeIdForKey hashToInt key)).or
    (getFirstEntrySnapshot x.snapshots key)

/-- The source of `_rebalance_after_remove`: the copy of the new primary, else of the old
replica, else the first one found. -/
def sourceAfterRemove (key : String) : Option (CacheEntry V) :=
  ((getEntrySnapshot x.snapshots key
      ((x.currentRing.ownerPair hashToInt key).1.map NodeConfig.nodeId)).or
    (getEntrySnapshot x.snapshots key
      ((x.previousRing.ownerPair hashToInt key).2.map NodeConfig.nodeId))).or
    (getFirstEntrySnapshot x.snapshots key)

/-- The source selection of the planner of a change. -/
def source (change : TopologyChange) : String → Option (CacheEntry V) :=
  match change with
  | .add => x.sourceAfterAdd hashToInt
  | .remove => x.sourceAfterRemove hashToInt

/-- The key has owners on both rings, and not the same set of them. -/
def OwnersChange (key : String) : Prop :=
  (x.previousRing.ownerPair hashToInt key).1.isSome ∧
    (x.currentRing.ownerPair hashToInt key).1.isSome ∧
    (x.previousRing.ownerIds hashToInt key).toFinset ≠
      (x.currentRing.ownerIds hashToInt key).toFinset

instance (key : String) : Decidable (x.OwnersChange hashToInt key) :=
  inferInstanceAs (Decidable (_ ∧ _ ∧ _))

/-- The entry that is copied for a key and the lifetime it is given; `none` stands for the
`continue`s of the loop over the keys. -/
def migration (change : TopologyChange) (key : String) :
    Option (CacheEntry V × Option Time) :=
  if x.OwnersChange hashToInt key then
    (x.source hashToInt change key).bind fun entry =>
      (migratedTtl entry.expiresAt x.now).map fun ttlSeconds => (entry, ttlSeconds)
  else none

/-- The puts of a key: to the new owners that lack it. -/
def putTasks (key : String) (entry : CacheEntry V) (ttlSeconds : Option Time) :
    List (MigrationTask V) :=
  (x.currentRing.ownerIds hashToInt key).filterMap fun nodeId =>
    ((nodesById x.nodes).get? nodeId).bind fun node =>
      if x.snapshots.Holds nodeId key then none else some (.put node key entry.value ttlSeconds)

/-- The deletes of a key: on the members that hold it without owning it. -/
def deleteTasks (key : String) : List (MigrationTask V) :=
  x.snapshots.toList.filterMap fun p =>
    if p.1 ∈ x.currentRing.ownerIds hashToInt key ∨ key ∉ p.2 then none
    else ((nodesById x.nodes).get? p.1).map fun node => .delete node key

/-- The calls that the rebalance gathers: all puts, then all deletes, key by key. -/
def plan (change : TopologyChange) : List (MigrationTask V) :=
  ((storedKeys x.snapshots).flatMap fun key =>
      match x.migration hashToInt change key with
      | none => []
      | some (entry, ttlSeconds) => x.putTasks hashToInt key entry ttlSeconds) ++
    (storedKeys x.snapshots).flatMap fun key =>
      match x.migration hashToInt change key with
      | none => []
      | some _ => x.deleteTasks hashToInt key

end PlanInput

/-- Where a rebalance stands: submitted, reading the snapshots of the members in `todo`, or
running the scheduled calls; once begun it keeps the ring that it read. A rebalance without
calls left has ended. -/
inductive RebalancePhase (V : Type*)
  | submitted
  | collecting (currentRing : ConsistentHashRing) (todo : List NodeConfig)
      (snapshots : Snapshots V)
  | migrating (currentRing : ConsistentHashRing) (pending : List (MigrationTask V))

/-- A rebalance on the background loop, with the ring from before the change. -/
structure RebalanceTask (V : Type*) where
  change : TopologyChange
  previousRing : ConsistentHashRing
  phase : RebalancePhase V

/-- The rebalance has ended: its future is done. -/
def RebalanceTask.Done (task : RebalanceTask V) : Prop :=
  match task.phase with
  | .migrating _ [] => True
  | _ => False

/-! ### The scheduled calls -/

theorem mem_storedKeys {snapshots : Snapshots V} {key : String} :
    key ∈ storedKeys snapshots ↔ ∃ nodeId, snapshots.Holds nodeId key := by
  rw [storedKeys, List.mem_insertionSort, List.mem_dedup, List.mem_flatMap]
  constructor
  · rintro ⟨entries, hentries, hkey⟩
    obtain ⟨nodeId, hnode⟩ := OrderedDict.mem_values_iff.mp hentries
    exact ⟨nodeId, entries, hnode, hkey⟩
  · rintro ⟨nodeId, entries, hnode, hkey⟩
    exact ⟨entries, OrderedDict.mem_values_iff.mpr ⟨nodeId, hnode⟩, hkey⟩

theorem getEntrySnapshot_some {snapshots : Snapshots V} {key nodeId : String} :
    getEntrySnapshot snapshots key (some nodeId) =
      (snapshots.get? nodeId).bind fun entries => entries.get? key := rfl

theorem getEntrySnapshot_eq_some {snapshots : Snapshots V} {key : String}
    {nodeId : Option String} {entry : CacheEntry V}
    (h : getEntrySnapshot snapshots key nodeId = some entry) :
    ∃ id entries, snapshots.get? id = some entries ∧ entries.get? key = some entry := by
  cases nodeId with
  | none => simp [getEntrySnapshot] at h
  | some id =>
    rw [getEntrySnapshot_some] at h
    obtain ⟨entries, hentries, hkey⟩ := Option.bind_eq_some_iff.mp h
    exact ⟨id, entries, hentries, hkey⟩

theorem getFirstEntrySnapshot_eq_some {snapshots : Snapshots V} {key : String}
    {entry : CacheEntry V} (h : getFirstEntrySnapshot snapshots key = some entry) :
    ∃ id entries, snapshots.get? id = some entries ∧ entries.get? key = some entry := by
  obtain ⟨entries, hentries, hkey⟩ := List.exists_of_findSome?_eq_some h
  obtain ⟨id, hid⟩ := OrderedDict.mem_values_iff.mp hentries
  exact ⟨id, entries, hid, hkey⟩

theorem isSome_getFirstEntrySnapshot {snapshots : Snapshots V} {nodeId key : String}
    (h : snapshots.Holds nodeId key) : (getFirstEntrySnapshot snapshots key).isSome := by
  obtain ⟨entries, hentries, hkey⟩ := h
  obtain ⟨entry, hentry⟩ := OrderedDict.mem_iff_exists_get?.mp hkey
  rw [getFirstEntrySnapshot, List.findSome?_isSome_iff]
  exact ⟨entries, OrderedDict.mem_values_iff.mpr ⟨nodeId, hentries⟩, by rw [hentry]; rfl⟩

theorem get?_nodesById {nodes : List NodeConfig} (hnodup : (nodes.map NodeConfig.nodeId).Nodup)
    {nodeId : String} {node : NodeConfig} :
    (nodesById nodes).get? nodeId = some node ↔ node ∈ nodes ∧ node.nodeId = nodeId := by
  induction nodes using List.reverseRecOn with
  | nil => simp [nodesById]
  | append_singleton nodes last ih =>
    rw [List.map_append, List.nodup_append] at hnodup
    obtain ⟨hinit, -, hlast⟩ := hnodup
    have hfold : nodesById (nodes ++ [last]) = (nodesById nodes).set last.nodeId last := by
      simp [nodesById]
    rw [hfold, OrderedDict.get?_set, List.mem_append, List.mem_singleton]
    split_ifs with hid
    · constructor
      · intro h
        obtain rfl := Option.some.inj h
        exact ⟨Or.inr rfl, hid.symm⟩
      · rintro ⟨hmem | rfl, hnode⟩
        · refine absurd (hnode.trans hid) (hlast _ (List.mem_map_of_mem hmem) _ ?_)
          exact List.mem_singleton.mpr rfl
        · rfl
    · rw [ih hinit]
      constructor
      · rintro ⟨hmem, hnode⟩
        exact ⟨Or.inl hmem, hnode⟩
      · rintro ⟨hmem | rfl, hnode⟩
        · exact ⟨hmem, hnode⟩
        · exact absurd hnode.symm hid

namespace PlanInput

variable {hashToInt : String → ℕ} {x : PlanInput V}

theorem put_mem_putTasks_iff {key : String} {entry : CacheEntry V} {ttl : Option Time}
    {task : MigrationTask V} : task ∈ x.putTasks hashToInt key entry ttl ↔
      ∃ node nodeId, task = .put node key entry.value ttl ∧
        nodeId ∈ x.currentRing.ownerIds hashToInt key ∧
        (nodesById x.nodes).get? nodeId = some node ∧ ¬x.snapshots.Holds nodeId key := by
  rw [putTasks, List.mem_filterMap]
  constructor
  · rintro ⟨nodeId, hid, htask⟩
    obtain ⟨node, hnode, htask⟩ := Option.bind_eq_some_iff.mp htask
    split_ifs at htask with hholds
    exact ⟨node, nodeId, (Option.some.inj htask).symm, hid, hnode, hholds⟩
  · rintro ⟨node, nodeId, rfl, hid, hnode, hholds⟩
    exact ⟨nodeId, hid, by rw [hnode, Option.bind_some, if_neg hholds]⟩

theorem mem_deleteTasks_iff {key : String} {task : MigrationTask V} :
    task ∈ x.deleteTasks hashToInt key ↔
      ∃ node nodeId, task = .delete node key ∧
        nodeId ∉ x.currentRing.ownerIds hashToInt key ∧
        (nodesById x.nodes).get? nodeId = some node ∧ x.snapshots.Holds nodeId key := by
  rw [deleteTasks, List.mem_filterMap]
  constructor
  · rintro ⟨⟨nodeId, entries⟩, hmem, htask⟩
    split_ifs at htask with hskip
    rw [not_or, not_not] at hskip
    obtain ⟨node, hnode, rfl⟩ := Option.map_eq_some_iff.mp htask
    exact ⟨node, nodeId, rfl, hskip.1, hnode, entries, OrderedDict.get?_eq_some_iff.mpr hmem,
      hskip.2⟩
  · rintro ⟨node, nodeId, rfl, hid, hnode, entries, hentries, hkey⟩
    refine ⟨(nodeId, entries), OrderedDict.get?_eq_some_iff.mp hentries, ?_⟩
    rw [if_neg (by simp [hid, hkey]), hnode, Option.map_some]

/-- A put is scheduled for a stored key whose owners change, to a new owner that lacks it. -/
theorem put_mem_plan_iff {change : TopologyChange} {node : NodeConfig} {key : String}
    {value : Option V} {ttl : Option Time} :
    .put node key value ttl ∈ x.plan hashToInt change ↔ key ∈ storedKeys x.snapshots ∧
      ∃ entry nodeId, x.migration hashToInt change key = some (entry, ttl) ∧ value = entry.value ∧
        nodeId ∈ x.currentRing.ownerIds hashToInt key ∧
        (nodesById x.nodes).get? nodeId = some node ∧ ¬x.snapshots.Holds nodeId key := by
  rw [plan, List.mem_append, List.mem_flatMap, List.mem_flatMap]
  constructor
  · rintro (⟨k, hk, htask⟩ | ⟨k, hk, htask⟩)
    · cases hm : x.migration hashToInt change k with
      | none => simp [hm] at htask
      | some pair =>
        obtain ⟨entry, ttl'⟩ := pair
        rw [hm] at htask
        obtain ⟨node', nodeId, heq, hid, hnode, hholds⟩ := put_mem_putTasks_iff.mp htask
        obtain ⟨rfl, rfl, rfl, rfl⟩ := MigrationTask.put.inj heq
        exact ⟨hk, entry, nodeId, hm, rfl, hid, hnode, hholds⟩
    · cases hm : x.migration hashToInt change k with
      | none => simp [hm] at htask
      | some pair =>
        rw [hm] at htask
        obtain ⟨node', nodeId, heq, -⟩ := mem_deleteTasks_iff.mp htask
        cases heq
  · rintro ⟨hk, entry, nodeId, hm, rfl, hid, hnode, hholds⟩
    refine Or.inl ⟨key, hk, ?_⟩
    rw [hm]
    exact put_mem_putTasks_iff.mpr ⟨node, nodeId, rfl, hid, hnode, hholds⟩

/-- A delete is scheduled for a stored key whose owners change, on a member that holds it
without owning it. -/
theorem delete_mem_plan_iff {change : TopologyChange} {node : NodeConfig} {key : String} :
    .delete node key ∈ x.plan hashToInt change ↔ key ∈ storedKeys x.snapshots ∧
      ∃ nodeId, (x.migration hashToInt change key).isSome ∧
        nodeId ∉ x.currentRing.ownerIds hashToInt key ∧
        (nodesById x.nodes).get? nodeId = some node ∧ x.snapshots.Holds nodeId key := by
  rw [plan, List.mem_append, List.mem_flatMap, List.mem_flatMap]
  constructor
  · rintro (⟨k, hk, htask⟩ | ⟨k, hk, htask⟩)
    · cases hm : x.migration hashToInt change k with
      | none => simp [hm] at htask
      | some pair =>
        rw [hm] at htask
        obtain ⟨node', nodeId, heq, -⟩ := put_mem_putTasks_iff.mp htask
        cases heq
    · cases hm : x.migration hashToInt change k with
      | none => simp [hm] at htask
      | some pair =>
        rw [hm] at htask
        obtain ⟨node', nodeId, heq, hid, hnode, hholds⟩ := mem_deleteTasks_iff.mp htask
        obtain ⟨rfl, rfl⟩ := MigrationTask.delete.inj heq
        exact ⟨hk, nodeId, by rw [hm]; rfl, hid, hnode, hholds⟩
  · rintro ⟨hk, nodeId, hm, hid, hnode, hholds⟩
    refine Or.inr ⟨key, hk, ?_⟩
    obtain ⟨pair, hpair⟩ := Option.isSome_iff_exists.mp hm
    rw [hpair]
    exact mem_deleteTasks_iff.mpr ⟨node, nodeId, rfl, hid, hnode, hholds⟩

end PlanInput

end DistributedCache
