import DistributedCache.Cluster.Lookup

/-!
# The client calls under a steady liveness pattern

When the owners of a key answer the liveness checks of a call in the same way throughout the
call, the call turns to the live owners in their order: a put writes the first and submits the
write of the second, a get answers the first copy found, and a delete erases both copies when
the first owner has one.

## Main definitions

* `ClusterManager.Steady` : the owners of a key have a fixed liveness during a call.
* `DistributedCacheCluster.liveCopy` : the copy that a get answers.

## Main results

* `DistributedCacheCluster.put_eq`, `DistributedCacheCluster.get_eq`,
  `DistributedCacheCluster.delete_eq_of_found`, `DistributedCacheCluster.delete_eq_of_missing`.
* `DistributedCacheCluster.put_unavailable` and its companions : no owner is alive.
-/

namespace DistributedCache

open Library

variable {V : Type*} {hashToInt : String → ℕ}

namespace ClusterManager

/-- The owners of the key answer the liveness checks of a call as `alive` says. -/
def Steady (hashToInt : String → ℕ) (m : ClusterManager) (clock : Clock) (alive : String → Bool)
    (key : String) : Prop :=
  ∀ node ∈ m.ring.owners hashToInt key, m.AliveThroughout clock node.nodeId (alive node.nodeId)

variable {m : ClusterManager} {clock : Clock} {alive : String → Bool} {key : String}
  {target : NodeConfig} {rest : List NodeConfig}

/-- There are at most two live owners. -/
theorem liveOwners_tail (h : m.liveOwners hashToInt alive key = target :: rest) :
    rest = rest.head?.toList := by
  have hlength : (m.liveOwners hashToInt alive key).length ≤ 2 := by
    refine (List.length_filter_le _ _).trans ?_
    rw [ConsistentHashRing.owners, List.length_append]
    have hle : ∀ o : Option NodeConfig, o.toList.length ≤ 1 := fun o => by cases o <;> simp
    exact Nat.add_le_add (hle _) (hle _)
  rw [h] at hlength
  cases rest with
  | nil => rfl
  | cons x l =>
    obtain rfl : l = [] := by simpa using hlength
    rfl

end ClusterManager

namespace DistributedCacheCluster

theorem liveOwners_true (hashToInt : String → ℕ) (m : ClusterManager) (key : String) :
    m.liveOwners hashToInt (fun _ => true) key = m.ring.owners hashToInt key :=
  List.filter_eq_self.mpr fun _ _ => rfl

variable {c : DistributedCacheCluster V} {clock : Clock} {alive : String → Bool} {key : String}
  {target : NodeConfig} {rest : List NodeConfig}

/-- The second live owner, checked by a manager that agrees on its liveness. -/
theorem otherOwner_eq {m' : ClusterManager} {now : Time}
    (h : c.manager.liveOwners hashToInt alive key = target :: rest)
    (hagree : ∀ node ∈ c.manager.ring.owners hashToInt key, node.nodeId ≠ target.nodeId →
      m'.isAlive now node.nodeId = alive node.nodeId) :
    otherOwner m' now (c.manager.routeForKey hashToInt clock key) target = rest.head? := by
  rw [← ClusterManager.otherOwner_routeForKey clock h, otherOwner,
    ClusterManager.replica_routeForKey]
  cases hreplica : (c.manager.ring.ownerPair hashToInt key).2 with
  | none => rfl
  | some replica =>
    have hmem : replica ∈ c.manager.ring.owners hashToInt key :=
      (ConsistentHashRing.mem_owners hashToInt).mpr (Or.inr hreplica)
    simp only [Option.filter]
    by_cases hne : replica.nodeId = target.nodeId
    · simp [hne]
    · simp [hne, hagree replica hmem hne]

/-- No owner is alive: the calls answer that the cluster has no live nodes and change nothing. -/
theorem servedBy_eq_none (hsteady : c.manager.Steady hashToInt clock alive key)
    (h : c.manager.liveOwners hashToInt alive key = []) :
    (c.manager.routeForKey hashToInt clock key).servedBy = none := by
  rw [ClusterManager.servedBy_routeForKey hsteady, h]
  rfl

theorem servedBy_eq_some (hsteady : c.manager.Steady hashToInt clock alive key)
    (h : c.manager.liveOwners hashToInt alive key = target :: rest) :
    (c.manager.routeForKey hashToInt clock key).servedBy = some target := by
  rw [ClusterManager.servedBy_routeForKey hsteady, h]
  rfl

theorem put_unavailable (hsteady : c.manager.Steady hashToInt clock alive key)
    (h : c.manager.liveOwners hashToInt alive key = []) (value : Option V)
    (ttlSeconds : Option Time) :
    c.put hashToInt clock key value ttlSeconds = (some noLiveNodes, c) := by
  simp only [put, servedBy_eq_none hsteady h]

theorem get_unavailable (hsteady : c.manager.Steady hashToInt clock alive key)
    (h : c.manager.liveOwners hashToInt alive key = []) :
    c.get hashToInt clock key = (some noLiveNodes, c) := by
  simp only [get, servedBy_eq_none hsteady h]

theorem delete_unavailable (hsteady : c.manager.Steady hashToInt clock alive key)
    (h : c.manager.liveOwners hashToInt alive key = []) :
    c.delete hashToInt clock key = (some noLiveNodes, c) := by
  simp only [delete, servedBy_eq_none hsteady h]

/-- A put writes the first live owner and submits the write of the second. -/
theorem put_eq (hsteady : c.manager.Steady hashToInt clock alive key)
    (h : c.manager.liveOwners hashToInt alive key = target :: rest)
    (hanswers : c.transport.Answers target.nodeId)
    (hroom : c.transport.HasRoom target.nodeId key) (value : Option V) :
    ∃ transport, c.put hashToInt clock key value none =
        (some { ok := true, statusCode := 200, servedBy := some target.nodeId },
          { c with
            manager := c.manager.recordHeartbeat (clock 5) target.nodeId
            transport := transport
            replicaWrites := c.replicaWrites ++ rest.map fun node => ⟨node, key, value, none⟩ }) ∧
      c.transport.Writes target.nodeId key (some ⟨value, none⟩) transport := by
  obtain ⟨result, transport, hput, hok, hwrites⟩ :=
    NodeTransport.put_eq hanswers hroom (clock.after 3) value
  have hother : otherOwner (c.manager.recordHeartbeat (clock 5) target.nodeId) (clock 6)
      (c.manager.routeForKey hashToInt clock key) target = rest.head? := by
    refine otherOwner_eq h fun node hnode hne => ?_
    rw [ClusterManager.isAlive_recordHeartbeat_of_ne hne, hsteady node hnode]
  have hreplica : replicaWriteOf (c.manager.recordHeartbeat (clock 5) target.nodeId) (clock 6)
      (c.manager.routeForKey hashToInt clock key) target key value none =
        rest.map fun node => ⟨node, key, value, none⟩ := by
    rw [replicaWriteOf, hother, ClusterManager.liveOwners_tail h]
    cases rest.head? <;> rfl
  refine ⟨transport, ?_, hwrites⟩
  simp only [put, servedBy_eq_some hsteady h, hput, hok, if_true, hreplica]

/-- The first copy on the live owners of a key whose value is not `None`, and where it is. -/
def liveCopy (hashToInt : String → ℕ) (c : DistributedCacheCluster V) (alive : String → Bool)
    (key : String) : Option (String × V) :=
  (c.manager.liveOwners hashToInt alive key).findSome? fun node =>
    ((c.transport.lookup node.nodeId key).bind CacheEntry.value).map fun v => (node.nodeId, v)

/-- A get reads the entry that some live owner has, when no live owner has another one. -/
theorem map_snd_liveCopy {entry : CacheEntry V} {node : NodeConfig}
    (hnode : node ∈ c.manager.liveOwners hashToInt alive key)
    (hfound : c.transport.lookup node.nodeId key = some entry)
    (hagree : ∀ x ∈ c.manager.liveOwners hashToInt alive key,
      c.transport.lookup x.nodeId key = none ∨ c.transport.lookup x.nodeId key = some entry) :
    (c.liveCopy hashToInt alive key).map Prod.snd = entry.value := by
  rw [liveCopy]
  generalize c.manager.liveOwners hashToInt alive key = l at hnode hagree ⊢
  induction l with
  | nil => cases hnode
  | cons x l ih =>
    have hrest : ∀ y ∈ l, c.transport.lookup y.nodeId key = none ∨
        c.transport.lookup y.nodeId key = some entry :=
      fun y hy => hagree y (List.mem_cons_of_mem x hy)
    rw [List.findSome?_cons]
    rcases hagree x List.mem_cons_self with hx | hx
    · rw [hx]
      refine ih ((List.mem_cons.mp hnode).resolve_left fun heq => ?_) hrest
      rw [heq, hx] at hfound
      cases hfound
    · rw [hx, Option.bind_some]
      cases hvalue : entry.value with
      | some v => rfl
      | none =>
        -- a stored `None` is passed over, and the other copies are the same
        have hnone : (l.findSome? fun node => ((c.transport.lookup node.nodeId key).bind
            CacheEntry.value).map fun v => (node.nodeId, v)) = none := by
          rw [List.findSome?_eq_none_iff]
          intro y hy
          rcases hrest y hy with hy | hy <;> simp [hy, hvalue]
        rw [Option.map_none, hnone]
        rfl

theorem liveCopy_eq_none (hnone : ∀ x ∈ c.manager.liveOwners hashToInt alive key,
    c.transport.lookup x.nodeId key = none) : c.liveCopy hashToInt alive key = none := by
  rw [liveCopy, List.findSome?_eq_none_iff]
  intro x hx
  rw [hnone x hx]
  rfl

/-- Where the live owners have at most one entry, a get finds the value of that entry. -/
theorem exists_liveCopy_iff {entry : CacheEntry V}
    (hagree : ∀ x ∈ c.manager.liveOwners hashToInt alive key,
      c.transport.lookup x.nodeId key = none ∨ c.transport.lookup x.nodeId key = some entry)
    {v : V} : (∃ nodeId, c.liveCopy hashToInt alive key = some (nodeId, v)) ↔
      entry.value = some v ∧ ∃ x ∈ c.manager.liveOwners hashToInt alive key,
        c.transport.lookup x.nodeId key = some entry := by
  by_cases hfound : ∃ x ∈ c.manager.liveOwners hashToInt alive key,
      c.transport.lookup x.nodeId key = some entry
  · obtain ⟨x, hx, hentry⟩ := hfound
    have hcopy := map_snd_liveCopy hx hentry hagree
    constructor
    · rintro ⟨nodeId, heq⟩
      rw [heq] at hcopy
      exact ⟨hcopy.symm, x, hx, hentry⟩
    · rintro ⟨hvalue, -⟩
      obtain ⟨copy, heq, rfl⟩ := Option.map_eq_some_iff.mp (hcopy.trans hvalue)
      exact ⟨copy.1, heq⟩
  · have hnone : c.liveCopy hashToInt alive key = none := liveCopy_eq_none fun x hx =>
      (hagree x hx).resolve_right fun hentry => hfound ⟨x, hx, hentry⟩
    rw [hnone]
    constructor
    · rintro ⟨nodeId, heq⟩
      cases heq
    · exact fun h => absurd h.2 hfound

/-- The answer of a get that found `copy`. -/
def getResponse : Option (String × V) → Response V
  | some (nodeId, v) =>
    { ok := true, statusCode := 200, value := some (some v), servedBy := some nodeId }
  | none => { ok := false, statusCode := 404, message := some "not found" }

/-- A get answers the first copy on the live owners; it changes heartbeats and recency only. -/
theorem get_eq (hsteady : c.manager.Steady hashToInt clock alive key)
    (h : c.manager.liveOwners hashToInt alive key = target :: rest)
    (hanswers : ∀ node ∈ target :: rest, c.transport.Answers node.nodeId)
    (httl : c.transport.NoTtl) :
    ∃ manager transport, c.get hashToInt clock key =
        (some (getResponse (c.liveCopy hashToInt alive key)),
          { c with manager := manager, transport := transport }) ∧
      (manager = c.manager ∨ ∃ now, manager = c.manager.recordHeartbeat now target.nodeId) ∧
      c.transport.Keeps transport := by
  obtain ⟨transport, hget, hkeeps⟩ := NodeTransport.get_eq
    (hanswers target List.mem_cons_self) httl (clock.after 3) key
  have hother : otherOwner c.manager (clock 6) (c.manager.routeForKey hashToInt clock key) target =
      rest.head? := otherOwner_eq h fun node hnode _ => hsteady node hnode 6
  rw [ClusterManager.liveOwners_tail h] at hanswers
  rw [liveCopy, h, ClusterManager.liveOwners_tail h, List.findSome?_cons]
  cases hcopy : (c.transport.lookup target.nodeId key).bind CacheEntry.value with
  | some v =>
    rw [hcopy, Option.isSome_some] at hget
    simp only [get, servedBy_eq_some hsteady h, hget]
    exact ⟨_, transport, rfl, Or.inr ⟨_, rfl⟩, hkeeps⟩
  | none =>
    rw [hcopy, Option.isSome_none] at hget
    simp only [get, servedBy_eq_some hsteady h, hget, hother]
    generalize rest.head? = next at hanswers ⊢
    cases next with
    | none => exact ⟨c.manager, transport, rfl, Or.inl rfl, hkeeps⟩
    | some replica =>
      have hreplica : transport.Answers replica.nodeId :=
        hkeeps.toSameNodes.answers_iff.mpr (hanswers replica (by simp))
      obtain ⟨transport', hget', hkeeps'⟩ := NodeTransport.get_eq hreplica
        (httl.keeps hkeeps) (clock.after 7) key
      rw [hkeeps.lookup] at hget'
      refine ⟨c.manager, transport', ?_, Or.inl rfl, hkeeps.trans hkeeps'⟩
      simp only [hget', Option.toList_some, List.findSome?_cons, List.findSome?_nil]
      cases (c.transport.lookup replica.nodeId key).bind CacheEntry.value <;> rfl

/-- A get finds the value of the first copy on the live owners whose value is not `None`. -/
theorem get_found_iff (hsteady : c.manager.Steady hashToInt clock alive key)
    (hanswers : ∀ node ∈ c.manager.liveOwners hashToInt alive key, c.transport.Answers node.nodeId)
    (httl : c.transport.NoTtl) {v : V} :
    (∃ r, (c.get hashToInt clock key).1 = some r ∧ r.value = some (some v)) ↔
      ∃ nodeId, c.liveCopy hashToInt alive key = some (nodeId, v) := by
  cases hlive : c.manager.liveOwners hashToInt alive key with
  | nil =>
    rw [get_unavailable hsteady hlive, liveCopy, hlive]
    simp [noLiveNodes]
  | cons target rest =>
    rw [hlive] at hanswers
    obtain ⟨manager, transport, hget, -, -⟩ := get_eq hsteady hlive hanswers httl
    rw [hget]
    cases hcopy : c.liveCopy hashToInt alive key with
    | none => simp [getResponse]
    | some copy => simp [getResponse, Prod.ext_iff]

/-- A delete is refused when the first live owner has no copy, and changes nothing then. -/
theorem delete_eq_of_missing (hsteady : c.manager.Steady hashToInt clock alive key)
    (h : c.manager.liveOwners hashToInt alive key = target :: rest)
    (hanswers : c.transport.Answers target.nodeId)
    (hmissing : c.transport.lookup target.nodeId key = none) :
    ∃ message transport, c.delete hashToInt clock key =
        (some { ok := false, statusCode := 404, message := some message },
          { c with transport := transport }) ∧ c.transport.Keeps transport := by
  obtain ⟨result, transport, hdelete, hok, hcode, hwrites⟩ :=
    NodeTransport.delete_eq hanswers (clock.after 3) key
  rw [hmissing] at hok
  have hkeeps : c.transport.Keeps transport := by
    refine ⟨hwrites.toSameNodes, fun n k => ?_⟩
    rw [hwrites.lookup]
    split_ifs with hcell
    · rw [hcell.1, hcell.2, hmissing]
    · rfl
  refine ⟨result.message, transport, ?_, hkeeps⟩
  simp only [delete, servedBy_eq_some hsteady h, hdelete, refused, hok, hcode hok]
  rfl

/-- A delete erases the copies of the live owners when the first of them has one. -/
theorem delete_eq_of_found (hsteady : c.manager.Steady hashToInt clock alive key)
    (h : c.manager.liveOwners hashToInt alive key = target :: rest)
    (hanswers : ∀ node ∈ target :: rest, c.transport.Answers node.nodeId)
    (hfound : (c.transport.lookup target.nodeId key).isSome) :
    ∃ transport, c.delete hashToInt clock key =
        (some { ok := true, statusCode := 200, servedBy := some target.nodeId },
          { c with transport := transport }) ∧
      c.transport.SameNodes transport ∧
      ∀ n k, transport.lookup n k =
        if k = key ∧ n ∈ (target :: rest).map NodeConfig.nodeId then none
        else c.transport.lookup n k := by
  obtain ⟨result, transport, hdelete, hok, -, hwrites⟩ :=
    NodeTransport.delete_eq (hanswers target List.mem_cons_self) (clock.after 3) key
  rw [hfound] at hok
  have hother : otherOwner c.manager (clock 5) (c.manager.routeForKey hashToInt clock key) target =
      rest.head? := otherOwner_eq h fun node hnode _ => hsteady node hnode 5
  rw [ClusterManager.liveOwners_tail h] at hanswers ⊢
  simp only [delete, servedBy_eq_some hsteady h, hdelete, hok, if_true, hother]
  generalize rest.head? = next at hanswers ⊢
  cases next with
  | none =>
    refine ⟨transport, rfl, hwrites.toSameNodes, fun n k => ?_⟩
    rw [hwrites.lookup]
    simp [and_comm]
  | some replica =>
    have hreplica : transport.Answers replica.nodeId :=
      hwrites.toSameNodes.answers_iff.mpr (hanswers replica (by simp))
    obtain ⟨result', transport', hdelete', -, -, hwrites'⟩ :=
      NodeTransport.delete_eq hreplica (clock.after 6) key
    simp only [hdelete']
    refine ⟨transport', rfl, hwrites.toSameNodes.trans hwrites'.toSameNodes, fun n k => ?_⟩
    rw [hwrites'.lookup, hwrites.lookup]
    by_cases hk : k = key
    · by_cases hr : n = replica.nodeId
      · simp [hk, hr]
      · simp [hk, hr]
    · simp [hk]

end DistributedCacheCluster

end DistributedCache
