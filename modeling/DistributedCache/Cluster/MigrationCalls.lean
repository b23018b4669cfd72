import DistributedCache.Cluster.Growth

/-!
# The calls of a rebalance

A rebalance that is alone at work plans from what the members held when it was submitted, and
issues the calls of its plan, each once and in any order. It changes no entry that none of these
calls is about, as long as no put evicts.

Source: `distributed_cache/cluster/service.py`, `_rebalance_after_add` and
`_rebalance_after_remove`.

## Main definitions

* `PlanInput.ReadsFrom` : what the planner of a rebalance reads that is alone at work.
* `DistributedCacheCluster.issuedCalls` : the calls that a background run issues.
* `DistributedCacheCluster.Issuing` : one rebalance is at work, alone, with the calls so far.

## Main results

* `PlanInput.nodup_plan` : no call is planned twice.
* `PlanInput.ReadsFrom.put_mem_plan_iff`, `PlanInput.ReadsFrom.delete_mem_plan_iff` : the plan.
* `DistributedCacheCluster.Issuing.run` : a rebalance issues the calls of its plan.
* `DistributedCacheCluster.Rebalancing.lookup_of_not_issued` : the entries that stay.
-/

namespace DistributedCache

open Library Library.Relocation

variable {V : Type*} {hashToInt : String → ℕ} {key : String}

/-! ### No call is planned twice -/

theorem nodup_storedKeys (snapshots : Snapshots V) : (storedKeys snapshots).Nodup :=
  (List.perm_insertionSort _ _).nodup_iff.mpr (List.nodup_dedup _)

/-- Some member holds the entry for the key. -/
def DistributedCacheCluster.Stores (c : DistributedCacheCluster V) (key : String)
    (entry : CacheEntry V) : Prop :=
  ∃ nodeId ∈ c.manager.nodes, c.transport.lookup nodeId key = some entry

namespace PlanInput

variable {x : PlanInput V} {change : TopologyChange}

private theorem nodup_putTasks (hnodup : (x.nodes.map NodeConfig.nodeId).Nodup)
    (entry : CacheEntry V) (ttlSeconds : Option Time) :
    (x.putTasks hashToInt key entry ttlSeconds).Nodup := by
  refine (x.currentRing.nodup_ownerIds hashToInt key).filterMap fun id id' call hcall hcall' => ?_
  obtain ⟨node, hnode, hcall⟩ := Option.bind_eq_some_iff.mp hcall
  obtain ⟨node', hnode', hcall'⟩ := Option.bind_eq_some_iff.mp hcall'
  split_ifs at hcall hcall'
  have heq := (Option.some.inj hcall).trans (Option.some.inj hcall').symm
  rw [← ((get?_nodesById hnodup).mp hnode).2, ← ((get?_nodesById hnodup).mp hnode').2,
    (MigrationTask.put.inj heq).1]

private theorem nodup_deleteTasks (hnodup : (x.nodes.map NodeConfig.nodeId).Nodup) :
    (x.deleteTasks hashToInt key).Nodup := by
  have hkeys : x.snapshots.toList.Pairwise fun p q => p.1 ≠ q.1 :=
    List.pairwise_map.mp x.snapshots.nodup_keys
  refine hkeys.filterMap _ fun p q hne call hcall call' hcall' heq => hne ?_
  split_ifs at hcall hcall'
  obtain ⟨node, hnode, rfl⟩ := Option.map_eq_some_iff.mp hcall
  obtain ⟨node', hnode', rfl⟩ := Option.map_eq_some_iff.mp hcall'
  rw [← ((get?_nodesById hnodup).mp hnode).2, ← ((get?_nodesById hnodup).mp hnode').2,
    (MigrationTask.delete.inj heq).1]

/-- No call is planned twice. -/
theorem nodup_plan (hnodup : (x.nodes.map NodeConfig.nodeId).Nodup) :
    (x.plan hashToInt change).Nodup := by
  rw [plan, List.nodup_append, List.nodup_flatMap, List.nodup_flatMap]
  refine ⟨⟨fun k _ => ?_, ?_⟩, ⟨fun k _ => ?_, ?_⟩, fun call hcall call' hcall' heq => ?_⟩
  · split
    · exact List.nodup_nil
    · exact nodup_putTasks hnodup _ _
  · refine (nodup_storedKeys x.snapshots).imp fun hne call hcall hcall' => hne ?_
    dsimp only at hcall hcall'
    split at hcall <;> split at hcall'
    · cases hcall
    · cases hcall
    · cases hcall'
    · obtain ⟨node, nodeId, rfl, -⟩ := put_mem_putTasks_iff.mp hcall
      obtain ⟨node', nodeId', heq, -⟩ := put_mem_putTasks_iff.mp hcall'
      exact (MigrationTask.put.inj heq).2.1
  · split
    · exact List.nodup_nil
    · exact nodup_deleteTasks hnodup
  · refine (nodup_storedKeys x.snapshots).imp fun hne call hcall hcall' => hne ?_
    dsimp only at hcall hcall'
    split at hcall <;> split at hcall'
    · cases hcall
    · cases hcall
    · cases hcall'
    · obtain ⟨node, nodeId, rfl, -⟩ := mem_deleteTasks_iff.mp hcall
      obtain ⟨node', nodeId', heq, -⟩ := mem_deleteTasks_iff.mp hcall'
      exact (MigrationTask.delete.inj heq).2
  · -- a put is no delete
    obtain ⟨k, -, hput⟩ := List.mem_flatMap.mp hcall
    obtain ⟨k', -, hdelete⟩ := List.mem_flatMap.mp hcall'
    split at hput <;> split at hdelete
    · cases hput
    · cases hput
    · cases hdelete
    · obtain ⟨node, nodeId, rfl, -⟩ := put_mem_putTasks_iff.mp hput
      obtain ⟨node', nodeId', rfl, -⟩ := mem_deleteTasks_iff.mp hdelete
      cases heq

/-! ### The plan of a rebalance that is alone -/

/-- What the planner reads whose rebalance answers the change from `c` to `c₁`, when nothing else
is at work: the owners before and after, the members after it and what these held. -/
structure ReadsFrom (hashToInt : String → ℕ) (x : PlanInput V)
    (c c₁ : DistributedCacheCluster V) : Prop where
  previousRing : ∀ key,
    x.previousRing.ownerSet hashToInt key = c.manager.ring.ownerSet hashToInt key
  currentRing : ∀ key,
    x.currentRing.ownerSet hashToInt key = c₁.manager.ring.ownerSet hashToInt key
  nodes : x.nodes = c₁.manager.getAllNodes
  seen : ∀ key nodeId, x.snapshots.seen key nodeId =
    if nodeId ∈ c₁.manager.nodes then some (c₁.transport.lookup nodeId key) else none

namespace ReadsFrom

variable {c c₁ : DistributedCacheCluster V}

theorem nodup_nodes (h : x.ReadsFrom hashToInt c c₁) (hc : c₁.manager.Coherent hashToInt) :
    (x.nodes.map NodeConfig.nodeId).Nodup := by
  rw [h.nodes, hc.map_nodeId_getAllNodes]
  exact c₁.manager.nodes.keys_nodup

theorem get?_nodes (h : x.ReadsFrom hashToInt c c₁) (hc : c₁.manager.Coherent hashToInt)
    (nodeId : String) : (nodesById x.nodes).get? nodeId = c₁.manager.nodes.get? nodeId := by
  ext node
  rw [get?_nodesById (h.nodup_nodes hc), h.nodes, ClusterManager.getAllNodes,
    OrderedDict.mem_values_iff]
  constructor
  · rintro ⟨⟨id, hid⟩, hnode⟩
    rwa [← hnode, hc.key_eq id node hid]
  · intro hnode
    exact ⟨⟨nodeId, hnode⟩, hc.key_eq nodeId node hnode⟩

theorem holds_iff (h : x.ReadsFrom hashToInt c c₁) {nodeId : String} :
    x.snapshots.Holds nodeId key ↔
      nodeId ∈ c₁.manager.nodes ∧ ∃ entry, c₁.transport.lookup nodeId key = some entry := by
  rw [← sees_seen, Sees]
  simp only [h.seen]
  split_ifs with hmember <;> simp [hmember]

theorem mem_ownerIds (h : x.ReadsFrom hashToInt c c₁) {nodeId : String} :
    nodeId ∈ x.currentRing.ownerIds hashToInt key ↔
      nodeId ∈ c₁.manager.ring.ownerIds hashToInt key := by
  rw [← ConsistentHashRing.mem_ownerSet, h.currentRing, ConsistentHashRing.mem_ownerSet]

theorem ownersChange_iff (h : x.ReadsFrom hashToInt c c₁) :
    x.OwnersChange hashToInt key ↔ DistributedCacheCluster.OwnersMove hashToInt key c c₁ := by
  rw [PlanInput.ownersChange_iff, h.previousRing, h.currentRing]
  rfl

/-- A key whose owners move is copied from a member that holds it. -/
theorem migration_eq_some (h : x.ReadsFrom hashToInt c c₁) (httl : c₁.transport.NoTtl)
    {entry : CacheEntry V} {ttlSeconds : Option Time}
    (hm : x.migration hashToInt change key = some (entry, ttlSeconds)) :
    DistributedCacheCluster.OwnersMove hashToInt key c c₁ ∧ ttlSeconds = none ∧
      ∃ nodeId ∈ c₁.manager.nodes, c₁.transport.lookup nodeId key = some entry := by
  rw [migration] at hm
  split_ifs at hm with hchange
  obtain ⟨entry', hsource, hm⟩ := Option.bind_eq_some_iff.mp hm
  obtain ⟨nodeId, hseen⟩ := source_eq_some hsource
  rw [h.seen] at hseen
  split_ifs at hseen with hmember
  have hentry := Option.some.inj hseen
  rw [httl nodeId key entry' hentry, migratedTtl, Option.map_some] at hm
  obtain ⟨rfl, rfl⟩ := Prod.mk.inj (Option.some.inj hm)
  exact ⟨h.ownersChange_iff.mp hchange, rfl, nodeId, hmember, hentry⟩

theorem isSome_migration (h : x.ReadsFrom hashToInt c c₁) (httl : c₁.transport.NoTtl)
    (hmoves : DistributedCacheCluster.OwnersMove hashToInt key c c₁) {nodeId : String}
    (hholds : x.snapshots.Holds nodeId key) :
    ∃ entry, x.migration hashToInt change key = some (entry, none) := by
  have hfound : (x.source hashToInt change key).isSome := isSome_source hholds
  obtain ⟨entry, hsource⟩ := Option.isSome_iff_exists.mp hfound
  obtain ⟨source, hseen⟩ := source_eq_some hsource
  rw [h.seen] at hseen
  split_ifs at hseen
  refine ⟨entry, ?_⟩
  rw [migration, if_pos (h.ownersChange_iff.mpr hmoves), hsource, Option.bind_some,
    httl source key entry (Option.some.inj hseen)]
  rfl

/-- The planned puts: of a value that a member holds, to the new owners that do not. -/
theorem put_mem_plan_iff (h : x.ReadsFrom hashToInt c c₁) (hc : c₁.manager.Coherent hashToInt)
    (httl : c₁.transport.NoTtl) {copy : Option (CacheEntry V)}
    (hagree : ∀ nodeId ∈ c₁.manager.nodes, c₁.transport.lookup nodeId key = none ∨
      c₁.transport.lookup nodeId key = copy) {node : NodeConfig} {value : Option V}
    {ttlSeconds : Option Time} :
    .put node key value ttlSeconds ∈ x.plan hashToInt change ↔
      DistributedCacheCluster.OwnersMove hashToInt key c c₁ ∧
      (∃ entry, c₁.Stores key entry ∧ value = entry.value) ∧ ttlSeconds = none ∧
      c₁.manager.nodes.get? node.nodeId = some node ∧
      node.nodeId ∈ c₁.manager.ring.ownerIds hashToInt key ∧
      c₁.transport.lookup node.nodeId key = none := by
  rw [PlanInput.put_mem_plan_iff]
  constructor
  · rintro ⟨-, entry, nodeId, hm, rfl, howner, hnode, hnot⟩
    rw [h.get?_nodes hc] at hnode
    obtain rfl := hc.key_eq nodeId node hnode
    have hmember : node.nodeId ∈ c₁.manager.nodes :=
      OrderedDict.mem_iff_exists_get?.mpr ⟨node, hnode⟩
    obtain ⟨hmoves, rfl, source, hsource, hentry⟩ := h.migration_eq_some httl hm
    refine ⟨hmoves, ⟨entry, ⟨source, hsource, hentry⟩, rfl⟩, rfl, hnode,
      h.mem_ownerIds.mp howner, ?_⟩
    exact Option.eq_none_iff_forall_ne_some.mpr fun entry' hentry' =>
      hnot (h.holds_iff.mpr ⟨hmember, entry', hentry'⟩)
  · rintro ⟨hmoves, ⟨entry, ⟨source, hsource, hentry⟩, rfl⟩, rfl, hnode, howner, hnone⟩
    have hholds : x.snapshots.Holds source key := h.holds_iff.mpr ⟨hsource, entry, hentry⟩
    obtain ⟨entry', hm⟩ : ∃ entry', x.migration hashToInt change key = some (entry', none) :=
      h.isSome_migration httl hmoves hholds
    obtain ⟨-, -, source', hsource', hentry'⟩ := h.migration_eq_some httl hm
    -- the members that hold the key hold the same entry
    have hsame : entry = entry' := by
      have hcopy : some entry = copy := by simpa [hentry] using hagree source hsource
      have hcopy' : some entry' = copy := by simpa [hentry'] using hagree source' hsource'
      exact Option.some.inj (hcopy.trans hcopy'.symm)
    refine ⟨mem_storedKeys.mpr ⟨source, hholds⟩, entry', node.nodeId, hm, by rw [hsame],
      h.mem_ownerIds.mpr howner, (h.get?_nodes hc _).trans hnode, fun hholds' => ?_⟩
    obtain ⟨-, entry'', hentry''⟩ := h.holds_iff.mp hholds'
    cases hnone.symm.trans hentry''

/-- The planned deletes: on the members that hold the key without owning it any more. -/
theorem delete_mem_plan_iff (h : x.ReadsFrom hashToInt c c₁) (hc : c₁.manager.Coherent hashToInt)
    (httl : c₁.transport.NoTtl) {node : NodeConfig} :
    .delete node key ∈ x.plan hashToInt change ↔
      DistributedCacheCluster.OwnersMove hashToInt key c c₁ ∧
      c₁.manager.nodes.get? node.nodeId = some node ∧
      node.nodeId ∉ c₁.manager.ring.ownerIds hashToInt key ∧
      ∃ entry, c₁.transport.lookup node.nodeId key = some entry := by
  rw [PlanInput.delete_mem_plan_iff]
  constructor
  · rintro ⟨-, nodeId, hm, howner, hnode, hholds⟩
    obtain ⟨⟨entry, ttlSeconds⟩, hm⟩ := Option.isSome_iff_exists.mp hm
    rw [h.get?_nodes hc] at hnode
    obtain rfl := hc.key_eq nodeId node hnode
    exact ⟨(h.migration_eq_some httl hm).1, hnode, fun hmem => howner (h.mem_ownerIds.mpr hmem),
      (h.holds_iff.mp hholds).2⟩
  · rintro ⟨hmoves, hnode, howner, hentry⟩
    have hmember : node.nodeId ∈ c₁.manager.nodes :=
      OrderedDict.mem_iff_exists_get?.mpr ⟨node, hnode⟩
    have hholds : x.snapshots.Holds node.nodeId key := h.holds_iff.mpr ⟨hmember, hentry⟩
    obtain ⟨entry, hm⟩ : ∃ entry, x.migration hashToInt change key = some (entry, none) :=
      h.isSome_migration httl hmoves hholds
    exact ⟨mem_storedKeys.mpr ⟨_, hholds⟩, node.nodeId, by rw [hm]; rfl,
      fun hmem => howner (h.mem_ownerIds.mp hmem), (h.get?_nodes hc _).trans hnode, hholds⟩

end ReadsFrom

end PlanInput

namespace DistributedCacheCluster

/-! ### The calls that a run issues -/

variable {c c₁ c' c'' : DistributedCacheCluster V} {s : BackgroundStep}
  {issued : List (MigrationTask V)}

/-- The background loop takes a step, and if it reads a snapshot, that does not fail. -/
def WorksReading (hashToInt : String → ℕ) (c : DistributedCacheCluster V) (s : BackgroundStep)
    (c' : DistributedCacheCluster V) : Prop :=
  (∀ index now outcome, s = .snapshot index now outcome → outcome = .carriedOut) ∧
    c.runBackground hashToInt s = some c'

/-- The call of a rebalance that the background step issues, if it issues one. -/
def issuedCall (c : DistributedCacheCluster V) : BackgroundStep → Option (MigrationTask V)
  | .migrate index i _ _ => c.scheduledCall index i
  | .replicate _ _ _ | .begin _ | .snapshot _ _ _ | .plan _ _ _ | .cleanup _ _ => none

/-- The calls of rebalances that a background run issues, in their order. -/
def issuedCalls (hashToInt : String → ℕ) (c : DistributedCacheCluster V) :
    List BackgroundStep → List (MigrationTask V)
  | [] => []
  | s :: steps =>
    (c.issuedCall s).toList ++
      ((c.runBackground hashToInt s).map fun c' => issuedCalls hashToInt c' steps).getD []

theorem issuedCalls_cons (h : c.runBackground hashToInt s = some c') (steps : List BackgroundStep) :
    c.issuedCalls hashToInt (s :: steps) =
      (c.issuedCall s).toList ++ c'.issuedCalls hashToInt steps := by
  rw [issuedCalls, h, Option.map_some, Option.getD_some]

/-- Where the rebalance of the change from `c` to `c₁` stands that is alone at work, and the calls
that it has issued: none before it has planned, and then the calls that its plan has left. -/
inductive Issued (hashToInt : String → ℕ) (c c₁ c' : DistributedCacheCluster V) :
    RebalancePhase V → List (MigrationTask V) → Prop
  | submitted (h : Rebalancing hashToInt False c c₁ c') : Issued hashToInt c c₁ c' .submitted []
  | collecting (h : Rebalancing hashToInt False c c₁ c') (ring : ConsistentHashRing)
      (todo : List NodeConfig) (snapshots : Snapshots V) :
      Issued hashToInt c c₁ c' (.collecting ring todo snapshots) []
  | migrating {x : PlanInput V} {change : TopologyChange} (hreads : x.ReadsFrom hashToInt c c₁)
      (ring : ConsistentHashRing) {pending issued : List (MigrationTask V)}
      (hplan : (issued ++ pending).Perm (x.plan hashToInt change)) :
      Issued hashToInt c c₁ c' (.migrating ring pending) issued

/-- The rebalance of the change from `c` to `c₁` is alone at work, and has issued the calls. -/
structure Issuing (hashToInt : String → ℕ) (c c₁ c' : DistributedCacheCluster V)
    (issued : List (MigrationTask V)) : Prop where
  replicaWrites : c'.replicaWrites = []
  others : ∀ index task, c'.rebalances[index]? = some task → index ≠ c.rebalances.length →
    task.Done
  own : ∃ task, c'.rebalances[c.rebalances.length]? = some task ∧
    Issued hashToInt c c₁ c' task.phase issued

/-- A rebalance that was submitted alone has not issued a call. -/
theorem Rearranged.issuing (h : Rearranged hashToInt c c₁) : Issuing hashToInt c c₁ c₁ [] := by
  obtain ⟨change, hrebalances⟩ := h.rebalances
  refine ⟨h.replicaWrites, fun index task htask hne => ?_, ⟨change, c.manager.ring, .submitted⟩, ?_,
    .submitted h.rebalancing⟩
  · refine h.done task ?_
    rw [hrebalances] at htask
    rcases lt_or_ge index c.rebalances.length with hlt | hge
    · rw [List.getElem?_append_left hlt] at htask
      exact List.mem_of_getElem? htask
    · have hlt := (List.getElem?_eq_some_iff.mp htask).1
      rw [List.length_append, List.length_singleton] at hlt
      omega
  · rw [hrebalances, List.getElem?_concat_length]

theorem Healthy.exists_trySnapshot (h : c.Healthy hashToInt) {node : NodeConfig}
    (hmember : node.nodeId ∈ c.manager.nodes) (now : Time) :
    ∃ t, c.transport.trySnapshot now .carriedOut node = some t := by
  rcases c.transport.trySnapshot_eq h.noTtl.transport now .carriedOut node with
    ⟨-, -, entries, t, htry, -⟩ | ⟨hfail, -⟩
  · exact ⟨_, htry⟩
  · exact absurd ⟨rfl, h.answers _ hmember⟩ hfail

namespace Issuing

/-- A rebalance that has not ended is the one at work. -/
theorem eq_of_not_done (h : Issuing hashToInt c c₁ c' issued) {index : ℕ} {task : RebalanceTask V}
    (htask : c'.rebalances[index]? = some task) (hdone : ¬task.Done) :
    index = c.rebalances.length ∧ Issued hashToInt c c₁ c' task.phase issued := by
  have hindex : index = c.rebalances.length := by
    by_contra hne
    exact hdone (h.others index task htask hne)
  subst hindex
  obtain ⟨task', htask', hissued⟩ := h.own
  obtain rfl := Option.some.inj (htask.symm.trans htask')
  exact ⟨rfl, hissued⟩

/-- The rebalance goes on. -/
private theorem setPhase (h : Issuing hashToInt c c₁ c' issued) {task : RebalanceTask V}
    (htask : c'.rebalances[c.rebalances.length]? = some task) (transport : NodeTransport V)
    {phase : RebalancePhase V} {issued' : List (MigrationTask V)}
    (hissued : Issued hashToInt c c₁
      ({ c' with transport := transport }.setPhase c.rebalances.length task phase) phase issued') :
    Issuing hashToInt c c₁
      ({ c' with transport := transport }.setPhase c.rebalances.length task phase) issued' := by
  refine ⟨h.replicaWrites, fun index task' htask' hne => ?_, { task with phase := phase }, ?_,
    hissued⟩
  · change (c'.rebalances.set _ _)[index]? = some task' at htask'
    rw [List.getElem?_set_ne (Ne.symm hne)] at htask'
    exact h.others index task' htask' hne
  · exact List.getElem?_set_self (List.getElem?_eq_some_iff.mp htask).1

/-- When the rebalance plans it has seen what the members held at first. -/
private theorem readsFrom (h : Rebalancing hashToInt False c c₁ c') {task : RebalanceTask V}
    (htask : c'.rebalances[c.rebalances.length]? = some task) {ring : ConsistentHashRing}
    {snapshots : Snapshots V} (hphase : task.phase = .collecting ring [] snapshots) (now : Time)
    (clock : String → Clock) :
    (c'.planInput task ring snapshots now clock).ReadsFrom hashToInt c c₁ := by
  have hreading (key : String) := (h.lone key).exact_of_reading
    (getElem?_jobs_keyView hashToInt key htask hphase)
  refine ⟨fun key => (hreading key).1, fun key => (hreading key).2.1,
    congrArg ClusterManager.getAllNodes h.front.manager, fun key nodeId => ?_⟩
  obtain ⟨-, hseen⟩ := (h.lone key).seen_of_reading
    (getElem?_jobs_keyView hashToInt key htask hphase)
  split_ifs with hmember
  · exact hseen nodeId hmember
  · refine Option.eq_none_iff_forall_ne_some.mpr fun copy hcopy => hmember ?_
    exact ((hreading key).2.2 nodeId copy hcopy).1

/-- One background step. -/
theorem step (h : Issuing hashToInt c c₁ c' issued) (hs : c'.WorksReading hashToInt s c'') :
    Issuing hashToInt c c₁ c'' (issued ++ (c'.issuedCall s).toList) := by
  obtain ⟨hreads, hs⟩ := hs
  cases s with
  | replicate index clock outcome =>
    obtain ⟨w, hw, -⟩ := runBackground_replicate hs
    rw [h.replicaWrites] at hw
    cases hw
  | begin index =>
    obtain ⟨task, htask, hphase, hc''⟩ := runBackground_begin hs
    obtain ⟨rfl, hissued⟩ := h.eq_of_not_done htask (by rw [RebalanceTask.Done, hphase]; exact id)
    rw [hphase] at hissued
    cases hissued with
    | submitted hrebalancing =>
      have hrebalancing' := hrebalancing.step ⟨fun cell hcell => (by cases hcell), hs⟩ False.elim
      subst hc''
      exact h.setPhase htask c'.transport (.collecting hrebalancing' _ _ _)
  | snapshot index now outcome =>
    obtain rfl := hreads index now outcome rfl
    obtain ⟨task, ring, node, todo, snapshots, htask, hphase, htry⟩ := runBackground_snapshot hs
    obtain ⟨rfl, hissued⟩ := h.eq_of_not_done htask (by rw [RebalanceTask.Done, hphase]; exact id)
    rw [hphase] at hissued
    cases hissued with
    | collecting hrebalancing =>
      have hrebalancing' := hrebalancing.step ⟨fun cell hcell => (by cases hcell), hs⟩ False.elim
      have hmember := (hrebalancing.healthy.rebalance htask).2 node.nodeId
        (by rw [hphase]; exact List.mem_cons_self)
      obtain ⟨t, hsnapshot⟩ := hrebalancing.healthy.exists_trySnapshot hmember now
      rcases htry with ⟨hnone, -⟩ | ⟨entries, transport, -, hc''⟩
      · cases hnone.symm.trans hsnapshot
      · subst hc''
        exact h.setPhase htask transport (.collecting hrebalancing' _ _ _)
  | plan index now clock =>
    obtain ⟨task, ring, snapshots, htask, hphase, rfl⟩ := runBackground_plan hs
    obtain ⟨rfl, hissued⟩ := h.eq_of_not_done htask (by rw [RebalanceTask.Done, hphase]; exact id)
    rw [hphase] at hissued
    cases hissued with
    | collecting hrebalancing =>
      exact h.setPhase htask c'.transport
        (.migrating (readsFrom hrebalancing htask hphase now clock) ring (.refl _))
  | migrate index i clock outcome =>
    obtain ⟨task, ring, pending, call, htask, hphase, hcall, rfl⟩ := runBackground_migrate hs
    have hdone : ¬task.Done := by
      intro hdone
      obtain ⟨ring', hnil⟩ := done_iff.mp hdone
      obtain ⟨-, rfl⟩ := RebalancePhase.migrating.inj (hphase.symm.trans hnil)
      cases hcall
    obtain ⟨rfl, hissued⟩ := h.eq_of_not_done htask hdone
    rw [hphase] at hissued
    cases hissued with
    | migrating hreads ring hplan =>
      have hlt := (List.getElem?_eq_some_iff.mp hcall).1
      refine h.setPhase htask _ (.migrating hreads ring (List.Perm.trans ?_ hplan))
      rw [issuedCall, scheduledCall_eq htask hphase hcall, Option.toList_some, List.append_assoc,
        ← (List.getElem?_eq_some_iff.mp hcall).2]
      exact (List.getElem_cons_eraseIdx_perm hlt).append_left issued
  | cleanup nodeId now =>
    obtain ⟨task, htask, hissued⟩ := h.own
    have hstep (hrebalancing : Rebalancing hashToInt False c c₁ c') :=
      hrebalancing.step ⟨fun cell hcell => (by cases hcell), hs⟩ False.elim
    obtain rfl := Option.some.inj hs
    refine ⟨h.replicaWrites, h.others, task, htask, ?_⟩
    rw [issuedCall, Option.toList_none, List.append_nil]
    generalize task.phase = phase at hissued ⊢
    cases hissued with
    | submitted hrebalancing => exact .submitted (hstep hrebalancing)
    | collecting hrebalancing ring todo snapshots => exact .collecting (hstep hrebalancing) _ _ _
    | migrating hreads ring hplan => exact .migrating hreads ring hplan

/-- **A rebalance issues the calls of its plan.** -/
theorem run (h : Issuing hashToInt c c₁ c' issued) {steps : List BackgroundStep}
    (hrun : Run (WorksReading hashToInt) c' steps c'') :
    Issuing hashToInt c c₁ c'' (issued ++ c'.issuedCalls hashToInt steps) := by
  induction hrun generalizing issued with
  | nil c' =>
    rw [issuedCalls, List.append_nil]
    exact h
  | cons hstep hrun ih =>
    rw [issuedCalls_cons hstep.2, ← List.append_assoc]
    exact ih (h.step hstep)

/-- At the end it has issued them all. -/
theorem perm_plan (h : Issuing hashToInt c c₁ c' issued) (hquiescent : c'.Quiescent) :
    ∃ (x : PlanInput V) (change : TopologyChange), x.ReadsFrom hashToInt c c₁ ∧
      issued.Perm (x.plan hashToInt change) := by
  obtain ⟨task, htask, hissued⟩ := h.own
  obtain ⟨ring, hphase⟩ := done_iff.mp (hquiescent.rebalances task (List.mem_of_getElem? htask))
  rw [hphase] at hissued
  cases hissued with
  | migrating hreads ring hplan =>
    rw [List.append_nil] at hplan
    exact ⟨_, _, hreads, hplan⟩

end Issuing

/-! ### What stays -/

/-- What a background step writes for a key is what the call writes that it issues. -/
theorem issuedCall_of_actionOf {a : Action String (CacheEntry V)}
    (ha : c.actionOf key s = some a) (hjob : a.OfJob) {w : Write String (CacheEntry V)}
    (hw : a.written = some w) :
    ∃ call, c.issuedCall s = some call ∧ call.nodeId = w.node ∧ call.key = key := by
  cases s with
  | replicate index clock outcome =>
    rw [actionOf] at ha
    split_ifs at ha
    obtain ⟨w', -, rfl⟩ := Option.map_eq_some_iff.mp ha
    exact hjob.elim
  | begin index =>
    obtain rfl := Option.some.inj ha
    cases hw
  | snapshot index now outcome =>
    obtain rfl := Option.some.inj ha
    split_ifs at hw <;> cases hw
  | plan index now clock =>
    obtain rfl := Option.some.inj ha
    cases hw
  | migrate index i clock outcome =>
    obtain ⟨w', hwrite, rfl⟩ := Option.map_eq_some_iff.mp ha
    obtain ⟨call, hcall, hwrite⟩ := Option.bind_eq_some_iff.mp hwrite
    split_ifs at hw
    · obtain rfl := Option.some.inj hw
      refine ⟨call, hcall, ?_⟩
      cases call with
      | put node k value ttlSeconds =>
        rw [MigrationTask.write] at hwrite
        split_ifs at hwrite with hk
        obtain rfl := Option.some.inj hwrite
        exact ⟨rfl, hk⟩
      | delete node k =>
        rw [MigrationTask.write] at hwrite
        split_ifs at hwrite with hk
        obtain rfl := Option.some.inj hwrite
        exact ⟨rfl, hk⟩
    · cases hw
  | cleanup nodeId now => cases ha

/-- While a rebalance is alone at work, entries that none of its calls is about stay, as long as
no put evicts. -/
theorem Rebalancing.lookup_of_not_issued {nodeId : String}
    (h : Rebalancing hashToInt False c c₁ c')
    {steps : List BackgroundStep} (hrun : Run (Works hashToInt) c' steps c'')
    (hcalls : ∀ call ∈ c'.issuedCalls hashToInt steps, ¬(call.nodeId = nodeId ∧ call.key = key)) :
    c''.transport.lookup nodeId key = c'.transport.lookup nodeId key := by
  induction hrun with
  | nil c' => rfl
  | @cons c' d c'' s steps hstep hrun ih =>
    rw [issuedCalls_cons hstep.2] at hcalls
    have hlater := ih (h.step hstep False.elim) fun call hcall =>
      hcalls call (List.mem_append_right _ hcall)
    rw [hlater]
    have hrefines := refines_runBackground h.healthy hstep.1 hstep.2 key
    cases ha : c'.actionOf key s with
    | none =>
      rw [ha] at hrefines
      have hview : d.keyView hashToInt key = c'.keyView hashToInt key := hrefines
      exact congrFun (congrArg State.hold hview) nodeId
    | some a =>
      rw [ha] at hrefines
      have hofJob : a.OfJob := actionOf_ofJob (by simp [h.replicaWrites]) ha
      have hjoin : a ≠ .join := fun heq => by rw [heq] at hofJob; exact hofJob
      have hview : Relocation.Step (c'.keyView hashToInt key) a (d.keyView hashToInt key) :=
        hrefines
      rcases hview.hold_eq hjoin nodeId with heq | ⟨w, hw, rfl, -⟩
      · exact heq
      · obtain ⟨call, hcall, hon⟩ := issuedCall_of_actionOf ha hofJob hw
        refine absurd hon (hcalls call (List.mem_append_left _ ?_))
        rw [hcall]
        exact List.mem_singleton.mpr rfl

end DistributedCacheCluster

end DistributedCache
