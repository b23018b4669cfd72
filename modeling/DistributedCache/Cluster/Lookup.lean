import DistributedCache.Cluster.Background
import Mathlib.Data.Finset.Card

/-!
# What the stores of the nodes hold

The entries that the nodes have for the keys, seen through the transport. As long as no entry
has a lifetime and no put evicts, every call to a node that answers either keeps all entries or
writes the entry of one key on one node.

## Main definitions

* `NodeTransport.lookup` : the entry of a node for a key.
* `NodeTransport.Keeps`, `NodeTransport.Writes` : what a call does to the entries.
* `NodeTransport.NoTtl`, `NodeTransport.HasRoom` : no lifetimes, and room for a put.

## Main results

* `NodeTransport.put_eq`, `NodeTransport.get_eq`, `NodeTransport.delete_eq`,
  `NodeTransport.snapshot_eq`, `NodeTransport.heartbeat_eq` : the calls to a node that answers.
-/

namespace DistributedCache

open Library

variable {V : Type*}

namespace NodeTransport

/-- The entry that the store of a node has for a key. -/
def lookup (t : NodeTransport V) (nodeId key : String) : Option (CacheEntry V) :=
  (t.runtimes nodeId).bind fun rt => rt.store.entries.get? key

/-- Calls to the node succeed. -/
def Answers (t : NodeTransport V) (nodeId : String) : Prop := (t.runtime? nodeId).isSome

instance (t : NodeTransport V) (nodeId : String) : Decidable (t.Answers nodeId) :=
  inferInstanceAs (Decidable ((t.runtime? nodeId).isSome = true))

/-- The capacity of the store of a node. -/
def capacity (t : NodeTransport V) (nodeId : String) : Option ℕ :=
  (t.runtimes nodeId).map fun rt => rt.store.maxItems

/-- A put of the key on the node evicts nothing. -/
def HasRoom (t : NodeTransport V) (nodeId key : String) : Prop :=
  ∀ rt, t.runtimes nodeId = some rt → rt.store.HasRoom key

instance (t : NodeTransport V) (nodeId key : String) : Decidable (t.HasRoom nodeId key) :=
  match h : t.runtimes nodeId with
  | none => isTrue fun rt hrt => by rw [h] at hrt; cases hrt
  | some rt => decidable_of_iff (rt.store.HasRoom key)
      ⟨fun hroom rt' hrt => by rw [h] at hrt; exact Option.some.inj hrt ▸ hroom,
        fun hroom => hroom rt h⟩

/-- No entry has a lifetime. -/
def NoTtl (t : NodeTransport V) : Prop :=
  ∀ nodeId key entry, t.lookup nodeId key = some entry → entry.expiresAt = none

/-- Both transports reach the same stores; what these hold may differ. -/
structure SameNodes (t t' : NodeTransport V) : Prop where
  kind : t'.kind = t.kind
  reachable : t'.reachable = t.reachable
  capacity : ∀ nodeId, t'.capacity nodeId = t.capacity nodeId

/-- From `t` to `t'` no entry changes. -/
structure Keeps (t t' : NodeTransport V) : Prop extends SameNodes t t' where
  lookup : ∀ n k, t'.lookup n k = t.lookup n k

/-- From `t` to `t'` the entry of `key` on the node becomes `entry`, and no other changes. -/
structure Writes (t : NodeTransport V) (nodeId key : String) (entry : Option (CacheEntry V))
    (t' : NodeTransport V) : Prop extends SameNodes t t' where
  lookup : ∀ n k, t'.lookup n k = if n = nodeId ∧ k = key then entry else t.lookup n k

theorem SameNodes.refl (t : NodeTransport V) : SameNodes t t := ⟨rfl, rfl, fun _ => rfl⟩

theorem SameNodes.trans {t t' t'' : NodeTransport V} (h : SameNodes t t')
    (h' : SameNodes t' t'') : SameNodes t t'' :=
  ⟨h'.kind.trans h.kind, h'.reachable.trans h.reachable,
    fun n => (h'.capacity n).trans (h.capacity n)⟩

theorem Keeps.refl (t : NodeTransport V) : Keeps t t := ⟨.refl t, fun _ _ => rfl⟩

theorem Keeps.trans {t t' t'' : NodeTransport V} (h : Keeps t t') (h' : Keeps t' t'') :
    Keeps t t'' :=
  ⟨h.toSameNodes.trans h'.toSameNodes, fun n k => (h'.lookup n k).trans (h.lookup n k)⟩

theorem answers_iff {t : NodeTransport V} {nodeId : String} :
    t.Answers nodeId ↔ t.reachable nodeId = true ∧ ∃ rt, t.runtimes nodeId = some rt := by
  rw [Answers, runtime?]
  split_ifs with h
  · simp [h, Option.isSome_iff_exists]
  · simp [h]

theorem isSome_capacity {t : NodeTransport V} {nodeId : String} :
    (t.capacity nodeId).isSome ↔ ∃ rt, t.runtimes nodeId = some rt := by
  rw [capacity, Option.isSome_map, Option.isSome_iff_exists]

theorem SameNodes.answers_iff {t t' : NodeTransport V} (h : SameNodes t t') {nodeId : String} :
    t'.Answers nodeId ↔ t.Answers nodeId := by
  rw [NodeTransport.answers_iff, NodeTransport.answers_iff, h.reachable, ← isSome_capacity,
    ← isSome_capacity, h.capacity]

theorem NoTtl.keeps {t t' : NodeTransport V} (h : t.NoTtl) (hk : Keeps t t') : t'.NoTtl := by
  intro n k entry hentry
  rw [hk.lookup] at hentry
  exact h n k entry hentry

theorem NoTtl.writes {t t' : NodeTransport V} (h : t.NoTtl) {nodeId key : String}
    {entry : Option (CacheEntry V)} (hw : t.Writes nodeId key entry t')
    (hentry : ∀ e ∈ entry, e.expiresAt = none) : t'.NoTtl := by
  intro n k e he
  rw [hw.lookup] at he
  split_ifs at he with hcell
  · exact hentry e he
  · exact h n k e he

/-- Every node has a capacity for the keys in use. -/
theorem hasRoom_of_subset {t : NodeTransport V} {nodeId key : String} {keys : Finset String}
    (hkeys : ∀ k, (t.lookup nodeId k).isSome → k ∈ keys) (hkey : key ∈ keys)
    (hcap : ∀ m ∈ t.capacity nodeId, keys.card ≤ m) : t.HasRoom nodeId key := by
  intro rt hrt
  have hsub : (rt.store.entries.pop key).keys.toFinset ⊆ keys.erase key := by
    intro k hk
    rw [List.mem_toFinset] at hk
    obtain ⟨hne, hmem⟩ := OrderedDict.mem_pop.mp hk
    refine Finset.mem_erase.mpr ⟨hne, hkeys k ?_⟩
    rw [lookup, hrt, Option.bind_some]
    exact OrderedDict.isSome_get?_iff.mpr hmem
  have hcard := Finset.card_le_card hsub
  rw [List.toFinset_card_of_nodup (rt.store.entries.pop key).keys_nodup, OrderedDict.length_keys,
    Finset.card_erase_of_mem hkey] at hcard
  have hmax : keys.card ≤ rt.store.maxItems :=
    hcap _ (by rw [capacity, hrt, Option.map_some, Option.mem_def])
  have hpos : 0 < keys.card := Finset.card_pos.mpr ⟨key, hkey⟩
  exact lt_of_le_of_lt hcard (by omega)

/-! ### The calls to a node that answers -/

section Calls

variable {t : NodeTransport V} {nodeId : String} {rt rt' : NodeRuntime V}

theorem lookup_setRuntime (t : NodeTransport V) (nodeId : String) (rt : NodeRuntime V)
    (n k : String) : (t.setRuntime nodeId rt).lookup n k =
      if n = nodeId then rt.store.entries.get? k else t.lookup n k := by
  change (Function.update t.runtimes nodeId (some rt) n).bind _ = _
  split_ifs with h
  · rw [h, Function.update_self, Option.bind_some]
  · rw [Function.update_of_ne h, lookup]

theorem lookup_of_runtimes (hrt : t.runtimes nodeId = some rt) (k : String) :
    t.lookup nodeId k = rt.store.entries.get? k := by
  rw [lookup, hrt, Option.bind_some]

theorem sameNodes_setRuntime (hrt : t.runtimes nodeId = some rt)
    (hmax : rt'.store.maxItems = rt.store.maxItems) : SameNodes t (t.setRuntime nodeId rt') := by
  refine ⟨rfl, rfl, fun n => ?_⟩
  change (Function.update t.runtimes nodeId (some rt') n).map _ = (t.runtimes n).map _
  by_cases hn : n = nodeId
  · rw [hn, Function.update_self, hrt, Option.map_some, Option.map_some, hmax]
  · rw [Function.update_of_ne hn]

theorem keeps_setRuntime (hrt : t.runtimes nodeId = some rt)
    (hmax : rt'.store.maxItems = rt.store.maxItems)
    (hentries : ∀ k, rt'.store.entries.get? k = rt.store.entries.get? k) :
    Keeps t (t.setRuntime nodeId rt') := by
  refine ⟨sameNodes_setRuntime hrt hmax, fun n k => ?_⟩
  rw [lookup_setRuntime]
  split_ifs with hn
  · rw [hn, lookup_of_runtimes hrt, hentries]
  · rfl

theorem writes_setRuntime (hrt : t.runtimes nodeId = some rt)
    (hmax : rt'.store.maxItems = rt.store.maxItems) {key : String}
    {entry : Option (CacheEntry V)}
    (hentries : ∀ k, rt'.store.entries.get? k =
      if k = key then entry else rt.store.entries.get? k) :
    t.Writes nodeId key entry (t.setRuntime nodeId rt') := by
  refine ⟨sameNodes_setRuntime hrt hmax, fun n k => ?_⟩
  rw [lookup_setRuntime]
  by_cases hn : n = nodeId
  · simp only [hn, true_and, if_true]
    rw [hentries, lookup_of_runtimes hrt]
  · simp only [hn, false_and, if_false]

theorem NoTtl.store (h : t.NoTtl) (hrt : t.runtimes nodeId = some rt) : rt.store.NoTtl := by
  intro k entry hentry
  exact h nodeId k entry (by rw [lookup_of_runtimes hrt, hentry])

variable {node : NodeConfig} {key : String}

theorem exists_runtime (h : t.Answers nodeId) :
    ∃ rt, t.runtimes nodeId = some rt ∧ t.runtime? nodeId = some rt := by
  obtain ⟨hreach, rt, hrt⟩ := answers_iff.mp h
  exact ⟨rt, hrt, by rw [runtime?, if_pos hreach, hrt]⟩

/-- A put on a node that answers stores the value. -/
theorem put_eq (h : t.Answers node.nodeId) (hroom : t.HasRoom node.nodeId key) (clock : Clock)
    (value : Option V) : ∃ result t', t.put clock node key value none = some (result, t') ∧
      result.ok = true ∧ t.Writes node.nodeId key (some ⟨value, none⟩) t' := by
  obtain ⟨rt, hrt, hget⟩ := exists_runtime h
  have hok : (t.refusal ⟨true, 200, "stored"⟩).ok = true := by
    rw [refusal]
    split <;> rfl
  refine ⟨_, t.setRuntime node.nodeId (rt.putLocal clock key value none).2,
    by rw [put, hget]; rfl, hok, ?_⟩
  exact writes_setRuntime hrt (CacheStore.maxItems_put _ _ _ _ _)
    (CacheStore.get?_entries_put_none (hroom rt hrt) (clock 0) value)

/-- A read on a node that answers returns the stored value, where it is not `None`. -/
theorem get_eq (h : t.Answers node.nodeId) (httl : t.NoTtl) (clock : Clock) (key : String) :
    ∃ t', t.get clock node key =
      some ((((t.lookup node.nodeId key).bind CacheEntry.value).isSome,
        (t.lookup node.nodeId key).bind CacheEntry.value), t') ∧ Keeps t t' := by
  obtain ⟨rt, hrt, hget⟩ := exists_runtime h
  have hnoTtl := httl.store hrt
  refine ⟨t.setRuntime node.nodeId (rt.getLocal clock key).2, ?_, ?_⟩
  · rw [get, hget, Option.map_some, lookup_of_runtimes hrt, ← CacheStore.fst_get hnoTtl (clock 0)]
    rfl
  · exact keeps_setRuntime hrt (CacheStore.maxItems_get _ _ _)
      (CacheStore.get?_entries_get hnoTtl _ _)

/-- A delete on a node that answers erases the entry, and is refused where there is none. -/
theorem delete_eq (h : t.Answers node.nodeId) (clock : Clock) (key : String) :
    ∃ result t', t.delete clock node key = some (result, t') ∧
      result.ok = (t.lookup node.nodeId key).isSome ∧
      (result.ok = false → result.statusCode = 404) ∧ t.Writes node.nodeId key none t' := by
  obtain ⟨rt, hrt, hget⟩ := exists_runtime h
  have hlocal : (rt.deleteLocal clock key).1 =
      if (rt.store.entries.get? key).isSome then ⟨true, 200, "deleted"⟩
      else ⟨false, 404, "not found"⟩ := rfl
  refine ⟨t.refusal (rt.deleteLocal clock key).1,
    t.setRuntime node.nodeId (rt.deleteLocal clock key).2, by rw [delete, hget]; rfl, ?_, ?_, ?_⟩
  · rw [lookup_of_runtimes hrt, hlocal, refusal]
    cases rt.store.entries.get? key <;> cases t.kind <;> rfl
  · rw [hlocal, refusal]
    cases rt.store.entries.get? key <;> cases t.kind <;> simp
  · have hmax : (rt.deleteLocal clock key).2.store.maxItems = rt.store.maxItems := rfl
    exact writes_setRuntime hrt hmax (CacheStore.get?_entries_delete rt.store key)

theorem heartbeat_eq (h : t.Answers node.nodeId) (now : Time) :
    ∃ t', t.heartbeat now node = some t' ∧ Keeps t t' := by
  obtain ⟨rt, hrt, hget⟩ := exists_runtime h
  exact ⟨t.setRuntime node.nodeId (rt.heartbeat now), by rw [heartbeat, hget]; rfl,
    keeps_setRuntime hrt rfl fun _ => rfl⟩

/-- The snapshot of a node that answers has its entries. -/
theorem snapshot_eq (h : t.Answers node.nodeId) (httl : t.NoTtl) (now : Time) :
    ∃ entries t', t.snapshot now node = some (entries, t') ∧
      (∀ k, entries.get? k = t.lookup node.nodeId k) ∧ Keeps t t' := by
  obtain ⟨rt, hrt, hget⟩ := exists_runtime h
  have hdrop := CacheStore.dropExpired_of_noTtl (httl.store hrt) now
  have hsnap : rt.snapshot now =
      (⟨rt.config.nodeId, rt.store.entries.toList.map fun p => (p.1, p.2.value),
        rt.store.entries, rt.store.size, rt.lastHeartbeatAt⟩, rt) := by
    simp only [NodeRuntime.snapshot, CacheStore.items, CacheStore.snapshot, hdrop]
  refine ⟨rt.store.entries, t.setRuntime node.nodeId rt, ?_, ?_, ?_⟩
  · rw [snapshot, hget, Option.map_some, hsnap]
  · exact fun k => (lookup_of_runtimes hrt k).symm
  · exact keeps_setRuntime hrt rfl fun _ => rfl

theorem keeps_cleanup (httl : t.NoTtl) (now : Time) (nodeId : String) :
    Keeps t (t.cleanup now nodeId) := by
  rw [cleanup]
  cases hrt : t.runtimes nodeId with
  | none => exact .refl t
  | some rt =>
    refine keeps_setRuntime hrt rfl fun k => ?_
    change (rt.store.cleanup now).entries.get? k = _
    rw [CacheStore.entries_cleanup (httl.store hrt)]

/-- A call to a node without a runtime raises. -/
theorem runtime?_eq_none (h : ¬t.Answers nodeId) : t.runtime? nodeId = none :=
  Option.not_isSome_iff_eq_none.mp h

end Calls

/-! ### The calls of the background loop -/

theorem sameNodes_of_runtime? {t : NodeTransport V} {nodeId : String}
    {rt rt' : NodeRuntime V} (hrt : t.runtime? nodeId = some rt)
    (hmax : rt'.store.maxItems = rt.store.maxItems) :
    SameNodes t (t.setRuntime nodeId rt') := by
  rw [runtime?] at hrt
  split_ifs at hrt
  exact sameNodes_setRuntime hrt hmax

/-- Whatever a background put does, the same nodes are reached after it. -/
theorem sameNodes_limitedPut (t : NodeTransport V) (clock : Clock) (outcome : CallOutcome)
    (node : NodeConfig) (key : String) (value : Option V) (ttlSeconds : Option Time) :
    SameNodes t (t.limitedPut clock outcome node key value ttlSeconds) := by
  cases outcome with
  | refused => exact .refl t
  | raised => exact .refl t
  | carriedOut =>
    rw [limitedPut, put]
    cases hrt : t.runtime? node.nodeId with
    | none => exact .refl t
    | some rt => exact sameNodes_of_runtime? hrt (CacheStore.maxItems_put _ _ _ _ _)

theorem sameNodes_limitedDelete (t : NodeTransport V) (clock : Clock) (outcome : CallOutcome)
    (node : NodeConfig) (key : String) :
    SameNodes t (t.limitedDelete clock outcome node key) := by
  cases outcome with
  | refused => exact .refl t
  | raised => exact .refl t
  | carriedOut =>
    rw [limitedDelete, delete]
    cases hrt : t.runtime? node.nodeId with
    | none => exact .refl t
    | some rt => exact sameNodes_of_runtime? hrt rfl

theorem sameNodes_runTask (t : NodeTransport V) (clock : Clock) (outcome : CallOutcome)
    (call : MigrationTask V) : SameNodes t (t.runTask clock outcome call) := by
  cases call with
  | put node key value ttlSeconds => exact sameNodes_limitedPut t clock outcome node key value _
  | delete node key => exact sameNodes_limitedDelete t clock outcome node key

theorem sameNodes_trySnapshot {t t' : NodeTransport V} {now : Time} {outcome : CallOutcome}
    {node : NodeConfig} {entries : OrderedDict String (CacheEntry V)}
    (h : t.trySnapshot now outcome node = some (entries, t')) : SameNodes t t' := by
  cases outcome with
  | refused => cases h
  | raised => cases h
  | carriedOut =>
    obtain ⟨rt, hrt, heq⟩ := Option.map_eq_some_iff.mp h
    obtain ⟨-, rfl⟩ := Prod.mk.inj heq
    exact sameNodes_of_runtime? hrt rfl

theorem sameNodes_cleanup (t : NodeTransport V) (now : Time) (nodeId : String) :
    SameNodes t (t.cleanup now nodeId) := by
  rw [cleanup]
  cases hrt : t.runtimes nodeId with
  | none => exact .refl t
  | some rt => exact sameNodes_setRuntime hrt rfl


section Background

variable {t : NodeTransport V} {outcome : CallOutcome} {node : NodeConfig} {key : String}

/-- A background put takes effect on a node that answers, unless it fails. -/
theorem limitedPut_eq (clock : Clock) (hroom : outcome = .carriedOut → t.HasRoom node.nodeId key)
    (value : Option V) :
    (outcome = .carriedOut ∧ t.Answers node.nodeId ∧
      t.Writes node.nodeId key (some ⟨value, none⟩)
        (t.limitedPut clock outcome node key value none)) ∨
    (¬(outcome = .carriedOut ∧ t.Answers node.nodeId) ∧
      t.limitedPut clock outcome node key value none = t) := by
  cases outcome with
  | refused => exact Or.inr ⟨by simp, rfl⟩
  | raised => exact Or.inr ⟨by simp, rfl⟩
  | carriedOut =>
    by_cases h : t.Answers node.nodeId
    · obtain ⟨result, t', hput, -, hw⟩ := put_eq h (hroom rfl) clock value
      refine Or.inl ⟨rfl, h, ?_⟩
      rw [limitedPut, hput]
      exact hw
    · refine Or.inr ⟨fun hc => h hc.2, ?_⟩
      rw [limitedPut, put, runtime?_eq_none h, Option.map_none]

/-- A background delete takes effect on a node that answers, unless it fails. -/
theorem limitedDelete_eq (t : NodeTransport V) (clock : Clock) (outcome : CallOutcome)
    (node : NodeConfig) (key : String) :
    (outcome = .carriedOut ∧ t.Answers node.nodeId ∧
      t.Writes node.nodeId key none (t.limitedDelete clock outcome node key)) ∨
    (¬(outcome = .carriedOut ∧ t.Answers node.nodeId) ∧
      t.limitedDelete clock outcome node key = t) := by
  cases outcome with
  | refused => exact Or.inr ⟨by simp, rfl⟩
  | raised => exact Or.inr ⟨by simp, rfl⟩
  | carriedOut =>
    by_cases h : t.Answers node.nodeId
    · obtain ⟨result, t', hdelete, -, -, hw⟩ := delete_eq h clock key
      refine Or.inl ⟨rfl, h, ?_⟩
      rw [limitedDelete, hdelete]
      exact hw
    · refine Or.inr ⟨fun hc => h hc.2, ?_⟩
      rw [limitedDelete, delete, runtime?_eq_none h, Option.map_none]

/-- A snapshot is read from a node that answers, unless it fails. -/
theorem trySnapshot_eq (httl : t.NoTtl) (now : Time) (outcome : CallOutcome)
    (node : NodeConfig) :
    (outcome = .carriedOut ∧ t.Answers node.nodeId ∧ ∃ entries t',
      t.trySnapshot now outcome node = some (entries, t') ∧
        (∀ k, entries.get? k = t.lookup node.nodeId k) ∧ Keeps t t') ∨
    (¬(outcome = .carriedOut ∧ t.Answers node.nodeId) ∧
      t.trySnapshot now outcome node = none) := by
  cases outcome with
  | refused => exact Or.inr ⟨by simp, rfl⟩
  | raised => exact Or.inr ⟨by simp, rfl⟩
  | carriedOut =>
    by_cases h : t.Answers node.nodeId
    · exact Or.inl ⟨rfl, h, snapshot_eq h httl now⟩
    · refine Or.inr ⟨fun hc => h hc.2, ?_⟩
      rw [trySnapshot, snapshot, runtime?_eq_none h, Option.map_none]

end Background

end NodeTransport

theorem sampleCluster_lookup (ids : List String) (nodeId key : String) :
    (sampleCluster ids).transport.lookup nodeId key = none := by
  change (if nodeId ∈ ids then some (sampleRuntime nodeId) else none).bind _ = none
  split_ifs <;> rfl

theorem sampleCluster_answers (ids : List String) :
    ∀ nodeId ∈ (sampleCluster ids).manager.nodes,
      (sampleCluster ids).transport.Answers nodeId := by
  intro nodeId hn
  obtain ⟨node, hnode, rfl⟩ := ClusterManager.exists_of_mem_nodes_init hn
  obtain ⟨id, hid, rfl⟩ := List.mem_map.mp hnode
  refine NodeTransport.answers_iff.mpr ⟨rfl, sampleRuntime id, ?_⟩
  exact if_pos hid

end DistributedCache
