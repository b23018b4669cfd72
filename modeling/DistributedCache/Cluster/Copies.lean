import DistributedCache.Cache.Operations
import DistributedCache.Cluster.Lookup

/-!
# Where copies come from

With lifetimes and evictions a call may drop any entry on the way, but a node gets a copy of a
key only through a put of the key, through a background write of it, or by joining with one.
This holds whether the nodes are alive or not, and however the calls to them go.

## Main definitions

* `NodeTransport.unexpired` : the copy of a node that has not expired at a reading.
* `DistributedCacheCluster.Arrives` : a copy of a key that an event may bring to a node.

## Main results

* `NodeTransport.lookup_of_put` and its companions : the copies after a call to a node.
* `DistributedCacheCluster.lookup_of_step` : the copies after an event.
* `DistributedCacheCluster.found_of_get` : the copy that a get answers.
-/

namespace DistributedCache

open Library

variable {V : Type*}

namespace NodeTransport

variable {t t' : NodeTransport V} {nodeId n k key : String} {node : NodeConfig}
  {rt rt' : NodeRuntime V} {entry : CacheEntry V} {clock : Clock} {now : Time}

theorem runtimes_of_runtime? (h : t.runtime? nodeId = some rt) : t.runtimes nodeId = some rt := by
  rw [runtime?] at h
  split_ifs at h
  exact h

/-- A call that performs an operation on the store of one node. -/
theorem lookup_of_perform (now : Time) (op : StoreOp V) (hrt : t.runtimes nodeId = some rt)
    (hstore : rt'.store = rt.store.perform now op)
    (h : (t.setRuntime nodeId rt').lookup n key = some entry) :
    t.lookup n key = some entry ∨
      n = nodeId ∧ CacheStore.written now key op = some (some entry) := by
  rw [lookup_setRuntime] at h
  split_ifs at h with hn
  · rw [hstore] at h
    rw [hn, lookup_of_runtimes hrt]
    exact (CacheStore.get?_perform h).imp_right fun hwritten => ⟨rfl, hwritten⟩
  · exact Or.inl h

theorem lookup_of_put {value : Option V} {ttlSeconds : Option Time} {result : OperationResult}
    (hput : t.put clock node k value ttlSeconds = some (result, t'))
    (h : t'.lookup n key = some entry) : t.lookup n key = some entry ∨
      n = node.nodeId ∧ k = key ∧ CacheStore.putEntry (clock 0) value ttlSeconds = some entry := by
  obtain ⟨rt, hrt, heq⟩ := Option.map_eq_some_iff.mp hput
  obtain ⟨-, rfl⟩ := Prod.mk.inj heq
  refine (lookup_of_perform (clock 0) (.put k value ttlSeconds)
    (runtimes_of_runtime? hrt) rfl h).imp_right fun hnew => ?_
  rw [CacheStore.written] at hnew
  split_ifs at hnew with hk
  · exact ⟨hnew.1, hk, Option.some.inj hnew.2⟩
  · cases hnew.2

/-- A put on a node that is reached is never refused. -/
theorem ok_of_put {value : Option V} {ttlSeconds : Option Time} {result : OperationResult}
    (hput : t.put clock node k value ttlSeconds = some (result, t')) : result.ok = true := by
  obtain ⟨rt, hrt, heq⟩ := Option.map_eq_some_iff.mp hput
  obtain ⟨rfl, -⟩ := Prod.mk.inj heq
  rw [refusal]
  split <;> rfl

/-- The entry of a key on the node of a put of the key. -/
theorem lookup_put_self {value : Option V} {ttlSeconds : Option Time} {result : OperationResult}
    (hput : t.put clock node key value ttlSeconds = some (result, t')) :
    t'.lookup node.nodeId key = CacheStore.putEntry (clock 0) value ttlSeconds := by
  obtain ⟨rt, hrt, heq⟩ := Option.map_eq_some_iff.mp hput
  obtain ⟨-, rfl⟩ := Prod.mk.inj heq
  rw [lookup_setRuntime, if_pos rfl]
  exact CacheStore.get?_entries_put rt.store (clock 0) key value ttlSeconds

theorem lookup_of_get {answer : Bool × Option V} (hget : t.get clock node k = some (answer, t'))
    (h : t'.lookup n key = some entry) : t.lookup n key = some entry := by
  obtain ⟨rt, hrt, heq⟩ := Option.map_eq_some_iff.mp hget
  obtain ⟨-, rfl⟩ := Prod.mk.inj heq
  refine (lookup_of_perform (clock 0) (.get k) (runtimes_of_runtime? hrt) rfl
    h).resolve_right fun hnew => ?_
  cases hnew.2

theorem answers_of_put {value : Option V} {ttlSeconds : Option Time} {result : OperationResult}
    (hput : t.put clock node k value ttlSeconds = some (result, t')) :
    t'.Answers node.nodeId := by
  obtain ⟨rt, hrt, heq⟩ := Option.map_eq_some_iff.mp hput
  obtain ⟨-, rfl⟩ := Prod.mk.inj heq
  have hanswers : t.Answers node.nodeId := by
    rw [Answers, hrt]
    rfl
  exact answers_iff.mpr ⟨(answers_iff.mp hanswers).1, _, Function.update_self ..⟩

/-- A read on a node that answers returns the value of an unexpired copy. -/
theorem get_of_lookup (h : t.Answers node.nodeId) (hentry : t.lookup node.nodeId k = some entry)
    (hlive : entry.isExpired (clock 0) = false) :
    ∃ t', t.get clock node k = some ((entry.value.isSome, entry.value), t') := by
  obtain ⟨rt, hrt, hget⟩ := exists_runtime h
  rw [lookup_of_runtimes hrt] at hentry
  have hfound : (rt.store.get (clock 0) k).1 = entry.value := by
    rw [CacheStore.get, hentry]
    dsimp only
    rw [hlive]
    rfl
  refine ⟨t.setRuntime node.nodeId (rt.getLocal clock k).2, ?_⟩
  rw [get, hget, Option.map_some, ← hfound]
  rfl

/-- A read finds an unexpired copy. -/
theorem found_of_get {value : Option V} (hget : t.get clock node k = some ((true, value), t')) :
    ∃ entry v, t.lookup node.nodeId k = some entry ∧ entry.isExpired (clock 0) = false ∧
      entry.value = some v ∧ value = some v := by
  obtain ⟨rt, hrt, heq⟩ := Option.map_eq_some_iff.mp hget
  obtain ⟨hfound, hvalue⟩ := Prod.mk.inj (Prod.mk.inj heq).1
  obtain ⟨v, hv⟩ := Option.isSome_iff_exists.mp hfound
  obtain ⟨entry, hentry, hlive, hvalue'⟩ := CacheStore.fst_get_eq_some_iff.mp hv
  refine ⟨entry, v, ?_, hlive, hvalue', hvalue.symm.trans hv⟩
  rw [lookup_of_runtimes (runtimes_of_runtime? hrt), hentry]

theorem lookup_of_delete {result : OperationResult}
    (hdelete : t.delete clock node k = some (result, t'))
    (h : t'.lookup n key = some entry) : t.lookup n key = some entry := by
  obtain ⟨rt, hrt, heq⟩ := Option.map_eq_some_iff.mp hdelete
  obtain ⟨-, rfl⟩ := Prod.mk.inj heq
  refine (lookup_of_perform (clock 0) (.delete k) (runtimes_of_runtime? hrt) rfl
    h).resolve_right fun hnew => ?_
  rw [CacheStore.written] at hnew
  split_ifs at hnew <;> cases hnew.2

theorem lookup_of_heartbeat (hbeat : t.heartbeat now node = some t')
    (h : t'.lookup n key = some entry) : t.lookup n key = some entry := by
  obtain ⟨rt, hrt, rfl⟩ := Option.map_eq_some_iff.mp hbeat
  rw [lookup_setRuntime] at h
  split_ifs at h with hn
  · rw [hn, lookup_of_runtimes (runtimes_of_runtime? hrt)]
    exact h
  · exact h

theorem lookup_of_cleanup {id : String} (h : (t.cleanup now id).lookup n key = some entry) :
    t.lookup n key = some entry := by
  rw [cleanup] at h
  cases hrt : t.runtimes id with
  | none =>
    rw [hrt] at h
    exact h
  | some rt =>
    rw [hrt] at h
    refine (lookup_of_perform now .cleanup hrt rfl h).resolve_right fun hnew => ?_
    cases hnew.2

/-- The entry that a node has for a key and that has not expired at the reading. -/
def unexpired (t : NodeTransport V) (now : Time) (nodeId key : String) : Option (CacheEntry V) :=
  (t.lookup nodeId key).filter fun entry => !entry.isExpired now

theorem unexpired_eq_some_iff : t.unexpired now n key = some entry ↔
    t.lookup n key = some entry ∧ entry.isExpired now = false := by
  rw [unexpired, Option.filter_eq_some_iff, Bool.not_eq_true']

/-- A snapshot shows the unexpired copies of a node, which then has no others. -/
theorem trySnapshot_eq_unexpired {outcome : CallOutcome}
    {entries : OrderedDict String (CacheEntry V)}
    (hsnap : t.trySnapshot now outcome node = some (entries, t')) :
    (∀ key, entries.get? key = t.unexpired now node.nodeId key) ∧
    ∀ n key, t'.lookup n key =
      if n = node.nodeId then t.unexpired now n key else t.lookup n key := by
  cases outcome with
  | refused => cases hsnap
  | raised => cases hsnap
  | carriedOut =>
    obtain ⟨rt, hrt, heq⟩ := Option.map_eq_some_iff.mp hsnap
    obtain ⟨rfl, rfl⟩ := Prod.mk.inj heq
    have hdropped : ∀ key, (rt.snapshot now).2.store.entries.get? key =
        t.unexpired now node.nodeId key := by
      intro key
      change ((rt.store.entries.filter _).filter _).get? key = _
      rw [OrderedDict.get?_filter, OrderedDict.get?_filter, unexpired,
        lookup_of_runtimes (runtimes_of_runtime? hrt)]
      cases rt.store.entries.get? key <;> simp
    refine ⟨hdropped, fun n key => ?_⟩
    rw [lookup_setRuntime]
    split_ifs with hn
    · rw [hn]
      exact hdropped key
    · rfl

/-- What a snapshot shows was there, and stays at most. -/
theorem lookup_of_trySnapshot {outcome : CallOutcome}
    {entries : OrderedDict String (CacheEntry V)}
    (hsnap : t.trySnapshot now outcome node = some (entries, t')) :
    (∀ key entry, entries.get? key = some entry → t.lookup node.nodeId key = some entry) ∧
    ∀ n key entry, t'.lookup n key = some entry → t.lookup n key = some entry := by
  obtain ⟨hshown, hleft⟩ := trySnapshot_eq_unexpired hsnap
  refine ⟨fun key entry h => ?_, fun n key entry h => ?_⟩
  · rw [hshown] at h
    exact (unexpired_eq_some_iff.mp h).1
  · rw [hleft] at h
    split_ifs at h
    · exact (unexpired_eq_some_iff.mp h).1
    · exact h

/-- A cleanup pass drops no unexpired copy. -/
theorem unexpired_cleanup (t : NodeTransport V) (now : Time) (nodeId key : String) :
    (t.cleanup now nodeId).unexpired now nodeId key = t.unexpired now nodeId key := by
  rw [cleanup]
  cases hrt : t.runtimes nodeId with
  | none => rfl
  | some rt =>
    dsimp only
    rw [unexpired, unexpired, lookup_setRuntime, if_pos rfl, lookup_of_runtimes hrt]
    change ((rt.store.cleanup now).entries.get? key).filter _ = _
    rw [CacheStore.entries_cleanup_eq, OrderedDict.get?_filter]
    cases rt.store.entries.get? key with
    | none => rfl
    | some entry =>
      by_cases hdue : key ∈ CacheStore.dueKeys now rt.store.expirationHeap <;>
        cases hexpired : entry.isExpired now <;> simp [Option.filter, hexpired, hdue]

theorem lookup_cleanup_of_ne (t : NodeTransport V) (now : Time) {nodeId : String}
    (h : n ≠ nodeId) (key : String) : (t.cleanup now nodeId).lookup n key = t.lookup n key := by
  rw [cleanup]
  cases t.runtimes nodeId with
  | none => rfl
  | some rt =>
    dsimp only
    rw [lookup_setRuntime, if_neg h]

theorem lookup_of_limitedPut {outcome : CallOutcome} {value : Option V} {ttlSeconds : Option Time}
    (h : (t.limitedPut clock outcome node k value ttlSeconds).lookup n key = some entry) :
    t.lookup n key = some entry ∨
      n = node.nodeId ∧ k = key ∧ CacheStore.putEntry (clock 0) value ttlSeconds = some entry ∧
        outcome = .carriedOut ∧ t.Answers node.nodeId := by
  cases outcome with
  | refused => exact Or.inl h
  | raised => exact Or.inl h
  | carriedOut =>
    rw [limitedPut] at h
    cases hput : t.put clock node k value ttlSeconds with
    | none =>
      rw [hput] at h
      exact Or.inl h
    | some answer =>
      rw [hput] at h
      refine (lookup_of_put hput h).imp_right fun hnew => ⟨hnew.1, hnew.2.1, hnew.2.2, rfl, ?_⟩
      obtain ⟨rt, hrt, -⟩ := Option.map_eq_some_iff.mp hput
      exact Option.isSome_iff_exists.mpr ⟨rt, hrt⟩

theorem lookup_of_limitedDelete {outcome : CallOutcome}
    (h : (t.limitedDelete clock outcome node k).lookup n key = some entry) :
    t.lookup n key = some entry := by
  cases outcome with
  | refused => exact h
  | raised => exact h
  | carriedOut =>
    rw [limitedDelete] at h
    cases hdelete : t.delete clock node k with
    | none =>
      rw [hdelete] at h
      exact h
    | some answer =>
      rw [hdelete] at h
      exact lookup_of_delete hdelete h

/-- A node that joins in process may bring copies along. -/
theorem lookup_of_registerNode {runtime : Option (NodeRuntime V)}
    (h : (t.registerNode now node runtime).lookup n key = some entry) :
    t.lookup n key = some entry ∨ n = node.nodeId ∧ ∃ rt, runtime = some rt ∧
      rt.store.entries.get? key = some entry := by
  rw [registerNode] at h
  cases hkind : t.kind with
  | http =>
    rw [hkind] at h
    exact Or.inl h
  | inProcess =>
    rw [hkind] at h
    dsimp only at h
    rw [lookup_setRuntime] at h
    split_ifs at h with hn
    · refine Or.inr ⟨hn, ?_⟩
      cases runtime with
      | none => cases h
      | some rt => exact ⟨rt, rfl, h⟩
    · exact Or.inl h

end NodeTransport

namespace DistributedCacheCluster

/-- A copy of the key that the event may bring to a node: through a client's put, with a node
that joins in process, or through a replica write or a scheduled put that the node carries out. -/
inductive Arrives (hashToInt : String → ℕ) (key : String) (c : DistributedCacheCluster V) :
    Event V → String → CacheEntry V → Prop
  | put {clock : Clock} {value : Option V} {ttlSeconds : Option Time} {target : NodeConfig}
      {entry : CacheEntry V}
      (htarget : (c.manager.routeForKey hashToInt clock key).servedBy = some target)
      (hentry : CacheStore.putEntry (clock 3) value ttlSeconds = some entry) :
      Arrives hashToInt key c (.call clock (.put key value ttlSeconds)) target.nodeId entry
  | join {clock : Clock} {node : NodeConfig} {rt : NodeRuntime V} {entry : CacheEntry V}
      (hentry : rt.store.entries.get? key = some entry) :
      Arrives hashToInt key c (.call clock (.addNode node (some rt))) node.nodeId entry
  | replicate {index : ℕ} {clock : Clock} {w : ReplicaWrite V} {entry : CacheEntry V}
      (hw : c.replicaWrites[index]? = some w) (hkey : w.key = key)
      (hentry : CacheStore.putEntry (clock 0) w.value w.ttlSeconds = some entry)
      (hanswers : c.transport.Answers w.node.nodeId) :
      Arrives hashToInt key c (.background (.replicate index clock .carriedOut)) w.node.nodeId entry
  | migrate {index i : ℕ} {clock : Clock} {task : RebalanceTask V}
      {currentRing : ConsistentHashRing} {pending : List (MigrationTask V)} {node : NodeConfig}
      {value : Option V} {ttlSeconds : Option Time} {entry : CacheEntry V}
      (htask : c.rebalances[index]? = some task)
      (hphase : task.phase = .migrating currentRing pending)
      (hcall : pending[i]? = some (.put node key value ttlSeconds))
      (hentry : CacheStore.putEntry (clock 0) value ttlSeconds = some entry)
      (hanswers : c.transport.Answers node.nodeId) :
      Arrives hashToInt key c (.background (.migrate index i clock .carriedOut)) node.nodeId entry

variable {hashToInt : String → ℕ} {c c' : DistributedCacheCluster V} {clock : Clock}
  {n k key : String} {entry : CacheEntry V}

/-- A put that returns found no live owner, or wrote the serving node. -/
theorem put_cases {value : Option V} {ttlSeconds : Option Time} {r : Response V}
    (hput : c.put hashToInt clock k value ttlSeconds = (some r, c')) :
    (c.manager.routeForKey hashToInt clock k).servedBy = none ∧ r = noLiveNodes ∧ c' = c ∨
    ∃ target result transport,
      (c.manager.routeForKey hashToInt clock k).servedBy = some target ∧
      c.transport.put (clock.after 3) target k value ttlSeconds = some (result, transport) ∧
      r = { ok := true, statusCode := 200, servedBy := some target.nodeId } ∧
      c' = { c with
        manager := c.manager.recordHeartbeat (clock 5) target.nodeId
        transport := transport
        replicaWrites := c.replicaWrites ++
          replicaWriteOf (c.manager.recordHeartbeat (clock 5) target.nodeId) (clock 6)
            (c.manager.routeForKey hashToInt clock k) target k value ttlSeconds } := by
  rw [put] at hput
  dsimp only at hput
  cases hserved : (c.manager.routeForKey hashToInt clock k).servedBy with
  | none =>
    rw [hserved] at hput
    obtain ⟨hr, rfl⟩ := Prod.mk.inj hput
    exact Or.inl ⟨rfl, (Option.some.inj hr).symm, rfl⟩
  | some target =>
    rw [hserved] at hput
    dsimp only at hput
    cases hanswer : c.transport.put (clock.after 3) target k value ttlSeconds with
    | none =>
      rw [hanswer] at hput
      cases (Prod.mk.inj hput).1
    | some answer =>
      obtain ⟨result, transport⟩ := answer
      have hok : result.ok = true := NodeTransport.ok_of_put hanswer
      rw [hanswer] at hput
      dsimp only at hput
      rw [if_pos hok] at hput
      obtain ⟨hr, rfl⟩ := Prod.mk.inj hput
      exact Or.inr ⟨target, result, transport, rfl, hanswer, (Option.some.inj hr).symm, rfl⟩

theorem lookup_of_put {value : Option V} {ttlSeconds : Option Time}
    (h : (c.put hashToInt clock k value ttlSeconds).2.transport.lookup n key = some entry) :
    c.transport.lookup n key = some entry ∨ ∃ target,
      (c.manager.routeForKey hashToInt clock k).servedBy = some target ∧ n = target.nodeId ∧
        k = key ∧ CacheStore.putEntry (clock 3) value ttlSeconds = some entry := by
  rw [put] at h
  dsimp only at h
  cases hserved : (c.manager.routeForKey hashToInt clock k).servedBy with
  | none =>
    rw [hserved] at h
    exact Or.inl h
  | some target =>
    rw [hserved] at h
    dsimp only at h
    cases hput : c.transport.put (clock.after 3) target k value ttlSeconds with
    | none =>
      rw [hput] at h
      exact Or.inl h
    | some answer =>
      obtain ⟨result, transport⟩ := answer
      rw [hput] at h
      have htransport : transport.lookup n key = some entry := by
        dsimp only at h
        split_ifs at h <;> exact h
      exact (NodeTransport.lookup_of_put hput htransport).imp_right fun hnew =>
        ⟨target, rfl, hnew⟩

theorem lookup_of_get
    (h : (c.get hashToInt clock k).2.transport.lookup n key = some entry) :
    c.transport.lookup n key = some entry := by
  rw [get] at h
  dsimp only at h
  split at h
  · exact h
  · rename_i target hserved
    split at h
    · exact h
    · rename_i value transport hget
      exact NodeTransport.lookup_of_get hget h
    · rename_i value transport hget
      split at h
      · exact NodeTransport.lookup_of_get hget h
      · split at h
        · exact NodeTransport.lookup_of_get hget h
        · rename_i hget'
          exact NodeTransport.lookup_of_get hget (NodeTransport.lookup_of_get hget' h)
        · rename_i hget'
          exact NodeTransport.lookup_of_get hget (NodeTransport.lookup_of_get hget' h)

/-- The value that a get answers is in an unexpired copy of an owner. -/
theorem found_of_get_owner {r : Response V} {value : Option V}
    (hget : (c.get hashToInt clock k).1 = some r) (hvalue : r.value = some value) :
    ∃ node ∈ c.manager.ring.owners hashToInt k, ∃ entry i v,
      c.transport.lookup node.nodeId k = some entry ∧ entry.isExpired (clock i) = false ∧
        entry.value = some v ∧ value = some v := by
  rw [get] at hget
  dsimp only at hget
  split at hget
  · obtain rfl := Option.some.inj hget
    cases hvalue
  · rename_i target hserved
    have htarget := ClusterManager.mem_owners_of_servedBy hserved
    split at hget
    · cases hget
    · rename_i found transport hfound
      obtain rfl := Option.some.inj hget
      obtain ⟨entry, v, hentry, hlive, hv, heq⟩ := NodeTransport.found_of_get hfound
      exact ⟨target, htarget, entry, 3, v, hentry, hlive, hv,
        (Option.some.inj hvalue).symm.trans heq⟩
    · rename_i missing transport hmissing
      split at hget
      · obtain rfl := Option.some.inj hget
        cases hvalue
      · rename_i replica hother
        have hreplica := (Option.filter_eq_some_iff.mp hother).1
        rw [ClusterManager.replica_routeForKey] at hreplica
        split at hget
        · cases hget
        · rename_i found transport' hfound
          obtain rfl := Option.some.inj hget
          obtain ⟨entry, v, hentry, hlive, hv, heq⟩ := NodeTransport.found_of_get hfound
          exact ⟨replica, (ConsistentHashRing.mem_owners hashToInt).mpr (Or.inr hreplica), entry, 7,
            v, NodeTransport.lookup_of_get hmissing hentry, hlive, hv,
            (Option.some.inj hvalue).symm.trans heq⟩
        · obtain rfl := Option.some.inj hget
          cases hvalue

/-- The value that a get answers is in an unexpired copy. -/
theorem found_of_get {r : Response V} {value : Option V}
    (hget : (c.get hashToInt clock k).1 = some r) (hvalue : r.value = some value) :
    ∃ n entry i v, c.transport.lookup n k = some entry ∧ entry.isExpired (clock i) = false ∧
      entry.value = some v ∧ value = some v := by
  obtain ⟨node, -, h⟩ := found_of_get_owner hget hvalue
  exact ⟨node.nodeId, h⟩

theorem lookup_of_delete
    (h : (c.delete hashToInt clock k).2.transport.lookup n key = some entry) :
    c.transport.lookup n key = some entry := by
  rw [delete] at h
  dsimp only at h
  split at h
  · exact h
  · split at h
    · exact h
    · rename_i hdelete
      split_ifs at h
      · split at h
        · exact NodeTransport.lookup_of_delete hdelete h
        · split at h
          · exact NodeTransport.lookup_of_delete hdelete h
          · rename_i hdelete'
            exact NodeTransport.lookup_of_delete hdelete (NodeTransport.lookup_of_delete hdelete' h)
      · exact NodeTransport.lookup_of_delete hdelete h

theorem lookup_of_serve {call : Call V}
    (h : (c.serve hashToInt clock call).2.transport.lookup n key = some entry) :
    c.transport.lookup n key = some entry ∨ c.Arrives hashToInt key (.call clock call) n entry := by
  cases call with
  | put k value ttlSeconds =>
    rcases lookup_of_put h with hold | ⟨target, htarget, rfl, rfl, hentry⟩
    · exact Or.inl hold
    · exact Or.inr (.put htarget hentry)
  | get k => exact Or.inl (lookup_of_get h)
  | delete k => exact Or.inl (lookup_of_delete h)
  | heartbeat nodeId =>
    rw [serve, heartbeat] at h
    split at h
    · exact Or.inl h
    · split at h
      · exact Or.inl h
      · rename_i hbeat
        exact Or.inl (NodeTransport.lookup_of_heartbeat hbeat h)
  | addNode node runtime =>
    rw [serve, addNode] at h
    split_ifs at h
    · exact Or.inl h
    · rcases NodeTransport.lookup_of_registerNode h with hold | ⟨rfl, rt, rfl, hentry⟩
      · exact Or.inl hold
      · exact Or.inr (.join hentry)
  | removeNode nodeId =>
    rw [serve, removeNode] at h
    split_ifs at h <;> exact Or.inl h

theorem lookup_of_runBackground {step : BackgroundStep}
    (hstep : c.runBackground hashToInt step = some c')
    (h : c'.transport.lookup n key = some entry) : c.transport.lookup n key = some entry ∨
      c.Arrives hashToInt key (.background step) n entry := by
  cases step with
  | replicate index clock outcome =>
    obtain ⟨w, hw, rfl⟩ := runBackground_replicate hstep
    refine (NodeTransport.lookup_of_limitedPut h).imp_right ?_
    rintro ⟨rfl, hkey, hentry, rfl, hanswers⟩
    exact .replicate hw hkey hentry hanswers
  | begin index =>
    obtain ⟨task, htask, hphase, rfl⟩ := runBackground_begin hstep
    exact Or.inl h
  | snapshot index now outcome =>
    obtain ⟨task, ring, node, todo, snapshots, htask, hphase, hcase⟩ := runBackground_snapshot hstep
    rcases hcase with ⟨hsnap, rfl⟩ | ⟨entries, transport, hsnap, rfl⟩
    · exact Or.inl h
    · exact Or.inl ((NodeTransport.lookup_of_trySnapshot hsnap).2 n key entry h)
  | plan index now clock =>
    obtain ⟨task, ring, snapshots, htask, hphase, rfl⟩ := runBackground_plan hstep
    exact Or.inl h
  | migrate index i clock outcome =>
    obtain ⟨task, ring, pending, call, htask, hphase, hcall, rfl⟩ := runBackground_migrate hstep
    cases call with
    | put node k value ttlSeconds =>
      refine (NodeTransport.lookup_of_limitedPut h).imp_right ?_
      rintro ⟨rfl, rfl, hentry, rfl, hanswers⟩
      exact .migrate htask hphase hcall hentry hanswers
    | delete node k => exact Or.inl (NodeTransport.lookup_of_limitedDelete h)
  | cleanup nodeId now =>
    obtain rfl := Option.some.inj hstep
    exact Or.inl (NodeTransport.lookup_of_cleanup h)

/-- A copy after an event was there before, or the event brought it. -/
theorem lookup_of_step {e : Event V} (hstep : c.step hashToInt e = some c')
    (h : c'.transport.lookup n key = some entry) :
    c.transport.lookup n key = some entry ∨ c.Arrives hashToInt key e n entry := by
  cases e with
  | call clock call =>
    obtain rfl := Option.some.inj hstep
    exact lookup_of_serve h
  | background step => exact lookup_of_runBackground hstep h

end DistributedCacheCluster

end DistributedCache
