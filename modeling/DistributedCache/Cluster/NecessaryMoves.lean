import DistributedCache.Cluster.MigrationCalls

/-!
# A rebalance moves only what it must

When every key is on exactly its owners with one value, the calls of a rebalance are what the
change of the owners demands: a node that joins is sent the keys that it owns now, and the old
replicas of these keys are told to delete them; when a member leaves, its keys are sent to the
members that take its place. Nothing else changes on any member, except that a put may evict an
entry from a full store.

Source: `distributed_cache/cluster/service.py`, `_rebalance_after_add` and
`_rebalance_after_remove`.

## Main definitions

* `DistributedCacheCluster.JoiningCall`, `DistributedCacheCluster.LeavingCall` : the calls that a
  change demands.
* `DistributedCacheCluster.MovesOnly` : a run issues exactly these calls and changes nothing else.

## Main results

* `DistributedCacheCluster.Joins.mem_plan_iff`, `DistributedCacheCluster.mem_plan_removeNode_iff` :
  the plan after either change.
* `DistributedCacheCluster.rebalance_moves_only_what_it_must` : a rebalance moves only what it must.
-/

namespace DistributedCache

open Library Library.Relocation

variable {V : Type*} {hashToInt : String → ℕ} {key : String}

namespace DistributedCacheCluster

variable {c c₁ c' : DistributedCacheCluster V}

/-! ### Which calls these are -/

/-- What the change from `c` to `c₁` demands in which `node` joined: a put to `node` of each stored
key that it owns now, and a delete of that key on its old replica. -/
def JoiningCall (hashToInt : String → ℕ) (c c₁ : DistributedCacheCluster V) (node : NodeConfig) :
    MigrationTask V → Prop
  | .put target key value ttlSeconds =>
    (∃ entry, c.Stores key entry ∧ value = entry.value) ∧ ttlSeconds = none ∧
      node.nodeId ∈ c₁.manager.ring.ownerIds hashToInt key ∧ target = node
  | .delete target key =>
    (∃ entry, c.Stores key entry) ∧ node.nodeId ∈ c₁.manager.ring.ownerIds hashToInt key ∧
      (c.manager.ring.ownerPair hashToInt key).2 = some target

/-- What the change from `c` to `c₁` demands in which the member `nodeId` left: a put of each stored
key that it owned to a member that is an owner now and was none before. -/
def LeavingCall (hashToInt : String → ℕ) (c c₁ : DistributedCacheCluster V) (nodeId : String) :
    MigrationTask V → Prop
  | .put target key value ttlSeconds =>
    (∃ entry, c.Stores key entry ∧ value = entry.value) ∧ ttlSeconds = none ∧
      nodeId ∈ c.manager.ring.ownerIds hashToInt key ∧
      target ∈ c₁.manager.ring.owners hashToInt key ∧
      target ∉ c.manager.ring.owners hashToInt key
  | .delete _ _ => False

variable {ids : Set String} {clock : Clock} {node : NodeConfig} {runtime : Option (NodeRuntime V)}
  {nodeId : String} {entry : CacheEntry V} {x : PlanInput V} {change : TopologyChange}

/-- Where a key is placed, the owners hold the entry that some member holds, and no others do. -/
theorem Placed.lookup_of_stores {copy : Option (CacheEntry V)} (h : c.Placed hashToInt key copy)
    (hstores : c.Stores key entry) (hmember : nodeId ∈ c.manager.nodes) :
    (nodeId ∈ c.manager.ring.ownerIds hashToInt key →
      c.transport.lookup nodeId key = some entry) ∧
    (nodeId ∉ c.manager.ring.ownerIds hashToInt key → c.transport.lookup nodeId key = none) := by
  obtain ⟨source, hsource, hentry⟩ := hstores
  have hcopy : copy = some entry := by
    rw [h source hsource] at hentry
    split_ifs at hentry
    exact hentry
  rw [h nodeId hmember, hcopy]
  exact ⟨fun howner => if_pos howner, fun howner => if_neg howner⟩

/-- An owner holds the entry that some member holds. -/
theorem Placed.lookup_of_mem_owners {copy : Option (CacheEntry V)}
    (h : c.Placed hashToInt key copy) (hc : c.Healthy hashToInt) (hstores : c.Stores key entry)
    (howner : node ∈ c.manager.ring.owners hashToInt key) :
    c.transport.lookup node.nodeId key = some entry :=
  (h.lookup_of_stores hstores (hc.mem_of_mem_owners howner)).1
    (ConsistentHashRing.mem_ownerIds_of_mem hashToInt howner)

/-- A member that holds a key is an owner of it. -/
theorem Placed.mem_ownerIds_of_lookup {copy : Option (CacheEntry V)}
    (h : c.Placed hashToInt key copy) (hmember : nodeId ∈ c.manager.nodes)
    (hentry : c.transport.lookup nodeId key = some entry) :
    nodeId ∈ c.manager.ring.ownerIds hashToInt key := by
  by_contra hnot
  rw [h nodeId hmember, if_neg hnot] at hentry
  cases hentry

theorem Placed.lookup_eq_or {copy : Option (CacheEntry V)} (h : c.Placed hashToInt key copy)
    (hmember : nodeId ∈ c.manager.nodes) :
    c.transport.lookup nodeId key = none ∨ c.transport.lookup nodeId key = copy := by
  rw [h nodeId hmember]
  split_ifs
  · exact Or.inr rfl
  · exact Or.inl rfl

/-- A member with its record is an owner if its id is that of an owner. -/
theorem mem_owners_iff_of_get? (hc : c.manager.Coherent hashToInt)
    (hnode : c.manager.nodes.get? node.nodeId = some node) :
    node ∈ c.manager.ring.owners hashToInt key ↔
      node.nodeId ∈ c.manager.ring.ownerIds hashToInt key := by
  refine ⟨ConsistentHashRing.mem_ownerIds_of_mem hashToInt, fun howner => ?_⟩
  obtain ⟨other, hother, hid⟩ := (ConsistentHashRing.mem_ownerIds hashToInt).mp howner
  have hget := hc.get?_nodes_of_mem_owners hother
  rw [hid, hnode] at hget
  rwa [Option.some.inj hget]

section Joining

/-- A key moves if and only if the node that joined owns it now. -/
theorem Joins.ownersMove_iff (hjoins : c.Joins clock node runtime)
    (hrest : c.AtRest hashToInt ids) (hcf : NoCollision hashToInt c.manager.ring.replicas ids)
    (hid : node.nodeId ∈ ids) {member : String} (hmember : member ∈ c.manager.nodes)
    (hc₁ : c₁ = (c.serve hashToInt clock (.addNode node runtime)).2) :
    OwnersMove hashToInt key c c₁ ↔ node.nodeId ∈ c₁.manager.ring.ownerIds hashToInt key := by
  obtain ⟨p, q, hpair, -, hmoved, hstayed⟩ := hjoins.exists_ownerPair hrest hcf hid hmember hc₁ key
  constructor
  · intro hmoves
    exact (hmoved hmoves node.nodeId).mpr (Or.inr rfl)
  · intro howner
    by_contra hstay
    have hsame :
        c₁.manager.ring.ownerIds hashToInt key = c.manager.ring.ownerIds hashToInt key := by
      rw [ConsistentHashRing.ownerIds, ConsistentHashRing.ownerIds, owners_of_pair (hstayed hstay),
        owners_of_pair hpair]
    exact hjoins.new (hrest.manager.coherent.mem_of_mem_ownerIds (hsame ▸ howner))

theorem Joins.get?_nodes (hjoins : c.Joins clock node runtime)
    (hc₁ : c₁ = (c.serve hashToInt clock (.addNode node runtime)).2) (n : String) :
    c₁.manager.nodes.get? n = if n = node.nodeId then some node else c.manager.nodes.get? n := by
  rw [hc₁, addNode_eq hjoins.new]
  exact OrderedDict.get?_set _ _ _ _

/-- A node that joins without the key brings no entry for it. -/
theorem Joins.stores_iff (hjoins : c.Joins clock node runtime)
    (hwithout : c.JoinsWithout clock key (.addNode node runtime)) (hid : node.nodeId ∈ ids)
    (hc₁ : c₁ = (c.serve hashToInt clock (.addNode node runtime)).2) :
    c₁.Stores key entry ↔ c.Stores key entry := by
  obtain ⟨hmem, hnone, hold⟩ := hjoins.lookup_serve hwithout (.addNode hid hjoins) hc₁
  constructor
  · rintro ⟨source, hsource, hentry⟩
    rcases (hmem source).mp hsource with rfl | hsource
    · cases hnone.symm.trans hentry
    · exact ⟨source, hsource, (hold source hsource).symm.trans hentry⟩
  · rintro ⟨source, hsource, hentry⟩
    exact ⟨source, (hmem source).mpr (Or.inr hsource), (hold source hsource).trans hentry⟩

/-- The puts that are planned after a node joined: the old primary has the key already. -/
theorem Joins.put_mem_plan_iff {copy : Option (CacheEntry V)} (hjoins : c.Joins clock node runtime)
    (hrest : c.AtRest hashToInt ids) (hcf : NoCollision hashToInt c.manager.ring.replicas ids)
    (hid : node.nodeId ∈ ids) (hwithout : c.JoinsWithout clock key (.addNode node runtime))
    (hplaced : c.Placed hashToInt key copy)
    (hc₁ : c₁ = (c.serve hashToInt clock (.addNode node runtime)).2)
    (hreads : x.ReadsFrom hashToInt c c₁) {target : NodeConfig} {value : Option V}
    {ttlSeconds : Option Time} :
    .put target key value ttlSeconds ∈ x.plan hashToInt change ↔
      c.JoiningCall hashToInt c₁ node (.put target key value ttlSeconds) := by
  have hcall : c.Rearranges ids clock (.addNode node runtime) := .addNode hid hjoins
  have hhealthy : c₁.Healthy hashToInt := hc₁ ▸ (hcall.rearranged hrest).healthy
  obtain ⟨hmem, hnone, hold⟩ := hjoins.lookup_serve hwithout hcall hc₁
  have hagree : ∀ n ∈ c₁.manager.nodes, c₁.transport.lookup n key = none ∨
      c₁.transport.lookup n key = copy := by
    intro n hn
    rcases (hmem n).mp hn with rfl | hn
    · exact Or.inl hnone
    · rw [hold n hn]
      exact hplaced.lookup_eq_or hn
  rw [hreads.put_mem_plan_iff hhealthy.coherent hhealthy.noTtl.transport hagree, JoiningCall]
  simp only [hjoins.stores_iff hwithout hid hc₁]
  constructor
  · rintro ⟨hmoves, ⟨entry, hentry, rfl⟩, rfl, hnode, howner, hlack⟩
    obtain ⟨source, hsource, -⟩ := id hentry
    obtain ⟨p, q, hpair, hp, hmoved, -⟩ := hjoins.exists_ownerPair hrest hcf hid hsource hc₁ key
    refine ⟨⟨entry, hentry, rfl⟩, rfl, (hmoved hmoves _).mpr (Or.inr rfl), ?_⟩
    rcases (hmoved hmoves target.nodeId).mp howner with heq | heq
    · have hprimary : p ∈ c.manager.ring.owners hashToInt key := by
        simp [owners_of_pair hpair]
      rw [heq, hold _ hp, hplaced.lookup_of_mem_owners hrest.healthy hentry hprimary] at hlack
      cases hlack
    · rw [hjoins.get?_nodes hc₁, if_pos heq] at hnode
      exact (Option.some.inj hnode).symm
  · rintro ⟨⟨entry, hentry, rfl⟩, rfl, howner, rfl⟩
    obtain ⟨source, hsource, -⟩ := id hentry
    refine ⟨(hjoins.ownersMove_iff hrest hcf hid hsource hc₁).mpr howner, ⟨entry, hentry, rfl⟩,
      rfl, ?_, howner, hnone⟩
    rw [hjoins.get?_nodes hc₁, if_pos rfl]

/-- The deletes that are planned after a node joined: only the old replica loses a key. -/
theorem Joins.delete_mem_plan_iff {copy : Option (CacheEntry V)}
    (hjoins : c.Joins clock node runtime) (hrest : c.AtRest hashToInt ids)
    (hcf : NoCollision hashToInt c.manager.ring.replicas ids) (hid : node.nodeId ∈ ids)
    (hwithout : c.JoinsWithout clock key (.addNode node runtime))
    (hplaced : c.Placed hashToInt key copy)
    (hc₁ : c₁ = (c.serve hashToInt clock (.addNode node runtime)).2)
    (hreads : x.ReadsFrom hashToInt c c₁) {target : NodeConfig} :
    .delete target key ∈ x.plan hashToInt change ↔
      c.JoiningCall hashToInt c₁ node (.delete target key) := by
  have hcall : c.Rearranges ids clock (.addNode node runtime) := .addNode hid hjoins
  have hhealthy : c₁.Healthy hashToInt := hc₁ ▸ (hcall.rearranged hrest).healthy
  have hcoherent := hrest.manager.coherent
  obtain ⟨hmem, hnone, hold⟩ := hjoins.lookup_serve hwithout hcall hc₁
  rw [hreads.delete_mem_plan_iff hhealthy.coherent hhealthy.noTtl.transport, JoiningCall]
  constructor
  · rintro ⟨hmoves, hnode, hlost, entry, hentry⟩
    have hne : target.nodeId ≠ node.nodeId := by
      intro heq
      rw [heq, hnone] at hentry
      cases hentry
    rw [hjoins.get?_nodes hc₁, if_neg hne] at hnode
    have hmember : target.nodeId ∈ c.manager.nodes :=
      OrderedDict.mem_iff_exists_get?.mpr ⟨target, hnode⟩
    rw [hold _ hmember] at hentry
    obtain ⟨p, q, hpair, hp, hmoved, -⟩ := hjoins.exists_ownerPair hrest hcf hid hmember hc₁ key
    refine ⟨⟨entry, _, hmember, hentry⟩, (hmoved hmoves _).mpr (Or.inr rfl), ?_⟩
    have howner := (mem_owners_iff_of_get? hcoherent hnode).mpr
      (hplaced.mem_ownerIds_of_lookup hmember hentry)
    rcases (ConsistentHashRing.mem_owners hashToInt).mp howner with hfirst | hsecond
    · rw [hpair] at hfirst
      obtain rfl := Option.some.inj hfirst
      exact absurd ((hmoved hmoves _).mpr (Or.inl rfl)) hlost
    · exact hsecond
  · rintro ⟨⟨entry, hentry⟩, howner, hreplica⟩
    obtain ⟨source, hsource, -⟩ := id hentry
    obtain ⟨p, q, hpair, hp, hmoved, -⟩ := hjoins.exists_ownerPair hrest hcf hid hsource hc₁ key
    have hmoves := (hjoins.ownersMove_iff hrest hcf hid hsource hc₁).mpr howner
    have hold' : target ∈ c.manager.ring.owners hashToInt key :=
      (ConsistentHashRing.mem_owners hashToInt).mpr (Or.inr hreplica)
    have hmember := hrest.healthy.mem_of_mem_owners hold'
    have hne : target.nodeId ≠ node.nodeId := fun heq => hjoins.new (heq ▸ hmember)
    refine ⟨hmoves, ?_, fun hkept => ?_, entry, ?_⟩
    · rw [hjoins.get?_nodes hc₁, if_neg hne, hcoherent.get?_nodes_of_mem_owners hold']
    · rcases (hmoved hmoves _).mp hkept with heq | heq
      · -- the primary is another node
        have hnodup := c.manager.ring.nodup_ownerIds hashToInt key
        rw [hpair] at hreplica
        change q = some target at hreplica
        rw [ConsistentHashRing.ownerIds, owners_of_pair hpair, hreplica] at hnodup
        simp [heq] at hnodup
      · exact hne heq
    · rw [hold _ hmember, hplaced.lookup_of_mem_owners hrest.healthy hentry hold']

/-- The calls that are planned after a node joined. -/
theorem Joins.mem_plan_iff (hjoins : c.Joins clock node runtime) (hrest : c.AtRest hashToInt ids)
    (hcf : NoCollision hashToInt c.manager.ring.replicas ids) (hid : node.nodeId ∈ ids)
    (hwithout : ∀ key, c.JoinsWithout clock key (.addNode node runtime))
    (hplaced : ∀ key, ∃ copy, c.Placed hashToInt key copy)
    (hc₁ : c₁ = (c.serve hashToInt clock (.addNode node runtime)).2)
    (hreads : x.ReadsFrom hashToInt c c₁) (call : MigrationTask V) :
    call ∈ x.plan hashToInt change ↔ c.JoiningCall hashToInt c₁ node call := by
  obtain ⟨copy, hcopy⟩ := hplaced call.key
  cases call with
  | put target key value ttlSeconds =>
    exact hjoins.put_mem_plan_iff hrest hcf hid (hwithout key) hcopy hc₁ hreads
  | delete target key =>
    exact hjoins.delete_mem_plan_iff hrest hcf hid (hwithout key) hcopy hc₁ hreads

end Joining

section Leaving

/-- The removal of a member changes no store. -/
theorem lookup_serve_removeNode (hmember : nodeId ∈ c.manager.nodes)
    (hc₁ : c₁ = (c.serve hashToInt clock (.removeNode nodeId)).2) :
    (∀ n, n ∈ c₁.manager.nodes ↔ n ≠ nodeId ∧ n ∈ c.manager.nodes) ∧
      (∀ n ∈ c₁.manager.nodes, c₁.manager.nodes.get? n = c.manager.nodes.get? n) ∧
      ∀ n key, c₁.transport.lookup n key = c.transport.lookup n key := by
  have hmem : ∀ n, n ∈ c₁.manager.nodes ↔ n ≠ nodeId ∧ n ∈ c.manager.nodes := by
    intro n
    rw [hc₁, removeNode_eq hmember]
    exact OrderedDict.mem_pop
  refine ⟨hmem, fun n hn => ?_, fun n key => ?_⟩
  · have hne := ((hmem n).mp hn).1
    rw [hc₁, removeNode_eq hmember]
    exact OrderedDict.get?_pop_of_ne _ hne
  · rw [hc₁, removeNode_eq hmember]
    rfl

/-- An owner of a key stays when a member leaves that is not the last one. -/
theorem exists_kept_of_removeNode (hrest : c.AtRest hashToInt ids)
    (hcf : NoCollision hashToInt c.manager.ring.replicas ids) (hmember : nodeId ∈ c.manager.nodes)
    {other : String} (hother : other ∈ c.manager.nodes) (hne : other ≠ nodeId)
    (hc₁ : c₁ = (c.serve hashToInt clock (.removeNode nodeId)).2) (key : String) :
    ∃ kept ∈ c.manager.ring.owners hashToInt key,
      kept ∈ c₁.manager.ring.owners hashToInt key := by
  have hcall : c.Rearranges ids clock (.removeNode nodeId) :=
    .removeNode hmember ⟨other, hother, hne⟩
  rw [hc₁]
  exact hcall.exists_kept_owner hrest.manager hcf hmember key

/-- When a member leaves, at most one node takes its place as an owner of a key. -/
theorem eq_of_newcomers (hrest : c.AtRest hashToInt ids)
    (hcf : NoCollision hashToInt c.manager.ring.replicas ids) (hmember : nodeId ∈ c.manager.nodes)
    (hc₁ : c₁ = (c.serve hashToInt clock (.removeNode nodeId)).2) {x y : NodeConfig}
    (hx : x ∈ c₁.manager.ring.owners hashToInt key) (hx' : x ∉ c.manager.ring.owners hashToInt key)
    (hy : y ∈ c₁.manager.ring.owners hashToInt key)
    (hy' : y ∉ c.manager.ring.owners hashToInt key) : x = y := by
  have hhealthy : c₁.Healthy hashToInt := hc₁ ▸ (hrest.rearranged_removeNode hmember).healthy
  obtain ⟨hne, hother⟩ :=
    ((lookup_serve_removeNode hmember hc₁).1 _).mp (hhealthy.mem_of_mem_owners hx)
  obtain ⟨kept, hold, hnew⟩ :=
    exists_kept_of_removeNode hrest hcf hmember hother hne hc₁ key
  have hxk : x ≠ kept := fun heq => hx' (heq ▸ hold)
  have hyk : y ≠ kept := fun heq => hy' (heq ▸ hold)
  rw [ConsistentHashRing.mem_owners] at hx hy hnew
  rcases hx with hx | hx <;> rcases hy with hy | hy
  · exact Option.some.inj (hx.symm.trans hy)
  · rcases hnew with hnew | hnew
    · exact absurd (Option.some.inj (hx.symm.trans hnew)) hxk
    · exact absurd (Option.some.inj (hy.symm.trans hnew)) hyk
  · rcases hnew with hnew | hnew
    · exact absurd (Option.some.inj (hy.symm.trans hnew)) hyk
    · exact absurd (Option.some.inj (hx.symm.trans hnew)) hxk
  · exact Option.some.inj (hx.symm.trans hy)

/-- Owners other than the member that leaves keep a key. -/
theorem ownersMove_removeNode (hmember : nodeId ∈ c.manager.nodes)
    (hc₁ : c₁ = (c.serve hashToInt clock (.removeNode nodeId)).2)
    (hmoves : OwnersMove hashToInt key c c₁) :
    nodeId ∈ c.manager.ring.ownerIds hashToInt key := by
  obtain ⟨p, hp⟩ := Option.isSome_iff_exists.mp (ConsistentHashRing.ownerSet_nonempty.mp hmoves.1)
  have hpair : c.manager.ring.ownerPair hashToInt key =
      (some p, (c.manager.ring.ownerPair hashToInt key).2) := Prod.ext hp rfl
  by_contra hnot
  rw [ConsistentHashRing.ownerIds, owners_of_pair hpair, List.map_cons, List.mem_cons, not_or]
    at hnot
  have hsame : c₁.manager.ring.ownerPair hashToInt key =
      (some p, (c.manager.ring.ownerPair hashToInt key).2) := by
    rw [hc₁, removeNode_eq hmember]
    refine ConsistentHashRing.ownerPair_removeNode_of_ne hpair (fun heq => hnot.1 heq.symm)
      fun x hx heq => hnot.2 ?_
    exact List.mem_map.mpr ⟨x, Option.mem_toList.mpr hx, heq⟩
  refine hmoves.2.2 ?_
  rw [ConsistentHashRing.ownerSet, ConsistentHashRing.ownerSet, ConsistentHashRing.ownerIds,
    ConsistentHashRing.ownerIds, owners_of_pair hpair, owners_of_pair hsame]

/-- The puts that are planned after a member left: an owner that stays has the key already. -/
theorem put_mem_plan_removeNode_iff {copy : Option (CacheEntry V)} (hrest : c.AtRest hashToInt ids)
    (hcf : NoCollision hashToInt c.manager.ring.replicas ids) (hmember : nodeId ∈ c.manager.nodes)
    (hplaced : c.Placed hashToInt key copy)
    (hc₁ : c₁ = (c.serve hashToInt clock (.removeNode nodeId)).2)
    (hreads : x.ReadsFrom hashToInt c c₁) {target : NodeConfig} {value : Option V}
    {ttlSeconds : Option Time} :
    .put target key value ttlSeconds ∈ x.plan hashToInt change ↔
      c.LeavingCall hashToInt c₁ nodeId (.put target key value ttlSeconds) := by
  have hhealthy : c₁.Healthy hashToInt := hc₁ ▸ (hrest.rearranged_removeNode hmember).healthy
  obtain ⟨hmem, hget, hold⟩ := lookup_serve_removeNode hmember hc₁
  have hagree : ∀ n ∈ c₁.manager.nodes, c₁.transport.lookup n key = none ∨
      c₁.transport.lookup n key = copy := by
    intro n hn
    rw [hold]
    exact hplaced.lookup_eq_or ((hmem n).mp hn).2
  rw [hreads.put_mem_plan_iff hhealthy.coherent hhealthy.noTtl.transport hagree, LeavingCall]
  constructor
  · rintro ⟨hmoves, ⟨entry, ⟨source, hsource, hentry⟩, rfl⟩, rfl, hnode, howner, hlack⟩
    rw [hold] at hentry hlack
    have hstored : c.Stores key entry := ⟨source, ((hmem source).mp hsource).2, hentry⟩
    refine ⟨⟨entry, hstored, rfl⟩, rfl, ownersMove_removeNode hmember hc₁ hmoves,
      (mem_owners_iff_of_get? hhealthy.coherent hnode).mpr howner, fun hkept => ?_⟩
    cases hlack.symm.trans (hplaced.lookup_of_mem_owners hrest.healthy hstored hkept)
  · rintro ⟨⟨entry, hstored, rfl⟩, rfl, hleft, hnew, hnot⟩
    have hnode := hhealthy.coherent.get?_nodes_of_mem_owners hnew
    have hmember' : target.nodeId ∈ c₁.manager.nodes := hhealthy.mem_of_mem_owners hnew
    obtain ⟨hne, hother⟩ := (hmem _).mp hmember'
    -- the owner that stays is the source
    obtain ⟨kept, hkept, hkept'⟩ :=
      exists_kept_of_removeNode hrest hcf hmember hother hne hc₁ key
    have hkeeps := hplaced.lookup_of_mem_owners hrest.healthy hstored hkept
    have hmoves : OwnersMove hashToInt key c c₁ := by
      refine ⟨⟨nodeId, ConsistentHashRing.mem_ownerSet.mpr hleft⟩, ⟨target.nodeId, ?_⟩,
        fun hsame => ?_⟩
      · exact ConsistentHashRing.mem_ownerSet.mpr
          (ConsistentHashRing.mem_ownerIds_of_mem hashToInt hnew)
      · rw [← ConsistentHashRing.mem_ownerSet, hsame, ConsistentHashRing.mem_ownerSet] at hleft
        exact ((hmem nodeId).mp (hhealthy.coherent.mem_of_mem_ownerIds hleft)).1 rfl
    refine ⟨hmoves, ⟨entry, ⟨kept.nodeId, hhealthy.mem_of_mem_owners hkept', ?_⟩, rfl⟩, rfl,
      hnode, ConsistentHashRing.mem_ownerIds_of_mem hashToInt hnew, ?_⟩
    · rw [hold, hkeeps]
    · rw [hold]
      rw [hget _ hmember'] at hnode
      exact (hplaced.lookup_of_stores hstored hother).2 fun howned =>
        hnot ((mem_owners_iff_of_get? hrest.manager.coherent hnode).mpr howned)

/-- No delete is planned after a member left: an owner that stays a member stays an owner. -/
theorem delete_notMem_plan_removeNode {copy : Option (CacheEntry V)}
    (hrest : c.AtRest hashToInt ids) (hmember : nodeId ∈ c.manager.nodes)
    (hplaced : c.Placed hashToInt key copy)
    (hc₁ : c₁ = (c.serve hashToInt clock (.removeNode nodeId)).2)
    (hreads : x.ReadsFrom hashToInt c c₁) {target : NodeConfig} :
    .delete target key ∉ x.plan hashToInt change := by
  have hhealthy : c₁.Healthy hashToInt := hc₁ ▸ (hrest.rearranged_removeNode hmember).healthy
  obtain ⟨hmem, hget, hold⟩ := lookup_serve_removeNode hmember hc₁
  rw [hreads.delete_mem_plan_iff hhealthy.coherent hhealthy.noTtl.transport]
  rintro ⟨-, hnode, hlost, entry, hentry⟩
  have hmember' : target.nodeId ∈ c₁.manager.nodes :=
    OrderedDict.mem_iff_exists_get?.mpr ⟨target, hnode⟩
  obtain ⟨hne, hother⟩ := (hmem _).mp hmember'
  rw [hget _ hmember'] at hnode
  rw [hold] at hentry
  have howner := (mem_owners_iff_of_get? hrest.manager.coherent hnode).mpr
    (hplaced.mem_ownerIds_of_lookup hother hentry)
  refine hlost (ConsistentHashRing.mem_ownerIds_of_mem hashToInt ?_)
  rw [hc₁, removeNode_eq hmember]
  exact ConsistentHashRing.mem_owners_removeNode howner hne

/-- The calls that are planned after a member left. -/
theorem mem_plan_removeNode_iff (hrest : c.AtRest hashToInt ids)
    (hcf : NoCollision hashToInt c.manager.ring.replicas ids) (hmember : nodeId ∈ c.manager.nodes)
    (hplaced : ∀ key, ∃ copy, c.Placed hashToInt key copy)
    (hc₁ : c₁ = (c.serve hashToInt clock (.removeNode nodeId)).2)
    (hreads : x.ReadsFrom hashToInt c c₁) (call : MigrationTask V) :
    call ∈ x.plan hashToInt change ↔ c.LeavingCall hashToInt c₁ nodeId call := by
  obtain ⟨copy, hcopy⟩ := hplaced call.key
  cases call with
  | put target key value ttlSeconds =>
    exact put_mem_plan_removeNode_iff hrest hcf hmember hcopy hc₁ hreads
  | delete target key =>
    rw [LeavingCall, iff_false]
    exact delete_notMem_plan_removeNode hrest hmember hcopy hc₁ hreads

end Leaving

/-- The background run `steps` from `c₁` to `c'` issues exactly the calls, each once. As long as no
put of it evicts, entries that none of them is about stay. -/
structure MovesOnly (hashToInt : String → ℕ) (calls : MigrationTask V → Prop)
    (c₁ c' : DistributedCacheCluster V) (steps : List BackgroundStep) : Prop where
  nodup : (c₁.issuedCalls hashToInt steps).Nodup
  mem_iff : ∀ call, call ∈ c₁.issuedCalls hashToInt steps ↔ calls call
  untouched : Run (Works hashToInt) c₁ steps c' → ∀ nodeId key,
    (∀ call, calls call → ¬(call.nodeId = nodeId ∧ call.key = key)) →
    c'.transport.lookup nodeId key = c₁.transport.lookup nodeId key

/-- The calls of a complete run of the rebalance are those of any plan that is read alone. -/
theorem Rearranged.movesOnly (h : Rearranged hashToInt c c₁) {calls : MigrationTask V → Prop}
    (hplan : ∀ (x : PlanInput V) (change : TopologyChange) (call : MigrationTask V),
      x.ReadsFrom hashToInt c c₁ → (call ∈ x.plan hashToInt change ↔ calls call))
    {steps : List BackgroundStep} (hrun : Run (WorksReading hashToInt) c₁ steps c')
    (hquiescent : c'.Quiescent) : MovesOnly hashToInt calls c₁ c' steps := by
  obtain ⟨x, change, hreads, hperm⟩ := (h.issuing.run hrun).perm_plan hquiescent
  rw [List.nil_append] at hperm
  have hmem : ∀ call, call ∈ c₁.issuedCalls hashToInt steps ↔ calls call := fun call =>
    hperm.mem_iff.trans (hplan x change call hreads)
  refine ⟨?_, hmem, fun hworks nodeId key hother => ?_⟩
  · exact hperm.nodup_iff.mpr (PlanInput.nodup_plan (hreads.nodup_nodes h.healthy.coherent))
  · exact h.rebalancing.lookup_of_not_issued hworks fun call hcall =>
      hother call ((hmem call).mp hcall)

/-- **A rebalance moves only what it must.** Every key is on exactly its owners, with one entry,
and no entry has a lifetime. After an empty node joined, a rebalance whose snapshots do not fail
issues exactly one put to it for each stored key that it owns now, and one delete of that key on
the old replica if there was one. After a member left it issues exactly one put for each stored
key that this owned, to the one node that takes its place if there is such a node, and no delete.
As long as the puts evict nothing, all other entries stay. -/
theorem rebalance_moves_only_what_it_must (hrest : c.AtRest hashToInt ids)
    (hcf : NoCollision hashToInt c.manager.ring.replicas ids)
    (hplaced : ∀ key, ∃ copy, c.Placed hashToInt key copy) (clock : Clock)
    (c₁ c' : DistributedCacheCluster V) (steps : List BackgroundStep)
    (hrun : Run (WorksReading hashToInt) c₁ steps c') (hquiescent : c'.Quiescent) :
    (∀ (node : NodeConfig) (runtime : Option (NodeRuntime V)), node.nodeId ∈ ids →
      c.Joins clock node runtime → (∀ key, c.JoinsWithout clock key (.addNode node runtime)) →
      c₁ = (c.serve hashToInt clock (.addNode node runtime)).2 →
      MovesOnly hashToInt (c.JoiningCall hashToInt c₁ node) c₁ c' steps) ∧
    ∀ nodeId ∈ c.manager.nodes, c₁ = (c.serve hashToInt clock (.removeNode nodeId)).2 →
      MovesOnly hashToInt (c.LeavingCall hashToInt c₁ nodeId) c₁ c' steps ∧
      ∀ key, ∀ x ∈ c₁.manager.ring.owners hashToInt key,
        ∀ y ∈ c₁.manager.ring.owners hashToInt key,
        x ∉ c.manager.ring.owners hashToInt key → y ∉ c.manager.ring.owners hashToInt key →
        x = y := by
  refine ⟨fun node runtime hid hjoins hwithout hc₁ => ?_, fun nodeId hmember hc₁ => ⟨?_, ?_⟩⟩
  · have hcall : c.Rearranges ids clock (.addNode node runtime) := .addNode hid hjoins
    have hrearranged : Rearranged hashToInt c c₁ := hc₁ ▸ hcall.rearranged hrest
    exact hrearranged.movesOnly (fun x change call hreads =>
      hjoins.mem_plan_iff hrest hcf hid hwithout hplaced hc₁ hreads call) hrun hquiescent
  · have hrearranged : Rearranged hashToInt c c₁ := hc₁ ▸ hrest.rearranged_removeNode hmember
    exact hrearranged.movesOnly (fun x change call hreads =>
      mem_plan_removeNode_iff hrest hcf hmember hplaced hc₁ hreads call) hrun hquiescent
  · exact fun key x hx y hy hx' hy' => eq_of_newcomers hrest hcf hmember hc₁ hx hx' hy hy'

/-- A run whose end passes a check exists, if the executed steps pass it and none fails. Its puts
may evict. -/
theorem exists_reading_run (hashToInt : String → ℕ) (c : DistributedCacheCluster V)
    (steps : List BackgroundStep) (p : DistributedCacheCluster V → Bool)
    (hsteps : ∀ s ∈ steps, s.Succeeds)
    (h : (steps.foldlM (runBackground hashToInt) c).any p = true) :
    ∃ c', Run (WorksReading hashToInt) c steps c' ∧ p c' = true := by
  induction steps generalizing c with
  | nil => exact ⟨c, .nil c, by simpa using h⟩
  | cons s steps ih =>
    rw [List.foldlM_cons] at h
    rw [List.forall_mem_cons] at hsteps
    cases hs : c.runBackground hashToInt s with
    | none =>
      rw [hs] at h
      cases h
    | some d =>
      rw [hs] at h
      obtain ⟨c', hrun, hp⟩ := ih d hsteps.2 h
      refine ⟨c', .cons ⟨?_, hs⟩ hrun, hp⟩
      rintro index now outcome rfl
      exact hsteps.1

/-- `rebalance_moves_only_what_it_must` where `"n"` joined and takes the place of `"b"`. -/
theorem rebalance_moves_only_what_it_must_node_joins :
    let c := sampleHolding ["a", "b"] ["a", "b"]
    let c₁ := (c.serve sampleHash (fun _ => 0) (.addNode (sampleNode "n") none)).2
    ∃ c', Run (WorksReading sampleHash) c₁ sampleGrowth c' ∧ c'.Quiescent ∧
      MovesOnly sampleHash (c.JoiningCall sampleHash c₁ (sampleNode "n")) c₁ c' sampleGrowth := by
  intro c c₁
  obtain ⟨c', hrun, hc'⟩ := exists_reading_run sampleHash c₁ sampleGrowth
    (fun c' => decide c'.Quiescent) (by decide) (by decide +kernel)
  have hquiescent := of_decide_eq_true hc'
  have hrest : c.AtRest sampleHash {"m", "n", "a", "b", "c"} :=
    sampleHolding_atRest _ _ (by simp)
  have hjoins : c.Joins (fun _ => 0) (sampleNode "n") none :=
    ⟨by decide +kernel, by decide +kernel, fun k entry hentry => by cases hentry⟩
  have hplaced : ∀ key, ∃ copy, c.Placed sampleHash key copy := by
    intro key
    by_cases hk : key = "k"
    · rw [hk]
      exact ⟨_, sampleHolding_placed⟩
    · refine ⟨none, fun nodeId _ => ?_⟩
      rw [sampleHolding_lookup, ite_self, if_neg fun h => hk h.2]
  refine ⟨c', hrun, hquiescent, ?_⟩
  exact (rebalance_moves_only_what_it_must hrest sampleHash_noCollision hplaced (fun _ => 0) c₁ c'
    sampleGrowth hrun hquiescent).1 (sampleNode "n") none (by simp [sampleNode]) hjoins
    (fun _ => rfl) rfl

/-! ### A member without room

The node `"c"` holds one entry at most. In the order of the ring, `"k"` is owned by `"a"` and `"b"`,
and `"j"` by `"c"` and `"a"`. -/

def crowdedHash (label : String) : ℕ :=
  if label = "a:0" then 10 else if label = "b:0" then 20 else if label = "c:0" then 30
  else if label = "j" then 25 else 0

def crowdedRuntime (nodeId : String) (maxItems : ℕ) (h : 0 < maxItems) (keys : List String) :
    NodeRuntime ℕ :=
  keys.foldl (fun rt key => (rt.putLocal (fun _ => 0) key (some 1) none).2)
    (.create 0 (sampleNode nodeId) maxItems h)

def crowdedCluster : DistributedCacheCluster ℕ :=
  .init (.init crowdedHash (fun _ => 0) (["a", "b", "c"].map sampleNode) 7 (by decide +kernel) 1
      Nat.one_pos)
    ⟨.inProcess, fun nodeId =>
      if nodeId = "a" then some (crowdedRuntime "a" 2 Nat.two_pos ["k", "j"])
      else if nodeId = "b" then some (crowdedRuntime "b" 2 Nat.two_pos ["k"])
      else if nodeId = "c" then some (crowdedRuntime "c" 1 Nat.one_pos ["j"]) else none,
      fun _ => true⟩

theorem crowdedCluster_lookup (nodeId key : String) :
    crowdedCluster.transport.lookup nodeId key =
      if (nodeId, key) ∈ [("a", "k"), ("a", "j"), ("b", "k"), ("c", "j")] then some (.plain 1)
      else none := by
  have hget : ∀ (rt : NodeRuntime ℕ) (keys : List String),
      rt.store.entries.toList = keys.map (fun k => (k, .plain 1)) →
      rt.store.entries.get? key = if key ∈ keys then some (.plain 1) else none := by
    intro rt keys hkeys
    ext entry
    rw [OrderedDict.get?_eq_some_iff, hkeys]
    by_cases hk : key ∈ keys <;> simp [hk, eq_comm]
  change (if nodeId = "a" then some (crowdedRuntime "a" 2 Nat.two_pos ["k", "j"])
    else if nodeId = "b" then some (crowdedRuntime "b" 2 Nat.two_pos ["k"])
    else if nodeId = "c" then some (crowdedRuntime "c" 1 Nat.one_pos ["j"]) else none).bind _ = _
  by_cases ha : nodeId = "a"
  · rw [if_pos ha, Option.bind_some, hget _ ["k", "j"] (by decide +kernel), ha]
    simp
  · rw [if_neg ha]
    by_cases hb : nodeId = "b"
    · rw [if_pos hb, Option.bind_some, hget _ ["k"] (by decide +kernel), hb]
      simp
    · rw [if_neg hb]
      by_cases hc : nodeId = "c"
      · rw [if_pos hc, Option.bind_some, hget _ ["j"] (by decide +kernel), hc]
        simp
      · rw [if_neg hc]
        simp [ha, hb, hc]

theorem crowdedHash_noCollision : NoCollision crowdedHash 1 {"a", "b", "c"} := by
  intro x hx y hy i hi j hj
  obtain rfl : i = 0 := by omega
  obtain rfl : j = 0 := by omega
  simp only [Set.mem_insert_iff, Set.mem_singleton_iff] at hx hy
  rcases hx with rfl | rfl | rfl <;> rcases hy with rfl | rfl | rfl <;> decide

theorem crowdedCluster_atRest : crowdedCluster.AtRest crowdedHash {"a", "b", "c"} where
  manager := ClusterManager.Reachable.init (fun _ => 0) _ 7 (by decide +kernel) 1 Nat.one_pos
    (by simp [sampleNode])
  noTtl nodeId key entry hentry := by
    rw [crowdedCluster_lookup] at hentry
    split_ifs at hentry
    rw [← Option.some.inj hentry]
    rfl
  answers nodeId hn := by
    have hkeys : crowdedCluster.manager.nodes.keys = ["a", "b", "c"] := by decide +kernel
    have hmem : nodeId ∈ crowdedCluster.manager.nodes.keys := hn
    rw [hkeys] at hmem
    simp only [List.mem_cons, List.not_mem_nil, or_false] at hmem
    rcases hmem with rfl | rfl | rfl <;> exact NodeTransport.answers_iff.mpr ⟨rfl, _, rfl⟩
  quiescent := ⟨rfl, fun task htask => by cases htask⟩

theorem crowdedCluster_placed (key : String) :
    ∃ copy, crowdedCluster.Placed crowdedHash key copy := by
  have hk : crowdedCluster.manager.ring.ownerIds crowdedHash "k" = ["a", "b"] := by decide +kernel
  have hj : crowdedCluster.manager.ring.ownerIds crowdedHash "j" = ["c", "a"] := by decide +kernel
  by_cases hkey : key = "k" ∨ key = "j"
  · refine ⟨some (.plain 1), fun nodeId _ => ?_⟩
    rcases hkey with rfl | rfl
    · rw [crowdedCluster_lookup, hk]
      simp
    · rw [crowdedCluster_lookup, hj]
      simp [or_comm]
  · rw [not_or] at hkey
    refine ⟨none, fun nodeId _ => ?_⟩
    rw [crowdedCluster_lookup, ite_self]
    simp [hkey]

/-- When `"b"` leaves, `"c"` takes its place for `"k"`. The put of `"k"` to `"c"`, the only call of
the rebalance, evicts `"j"` there. -/
theorem rebalance_evicts_other_key :
    let c := crowdedCluster
    let c₁ := (c.serve crowdedHash (fun _ => 0) (.removeNode "b")).2
    let steps : List BackgroundStep := [.begin 0, .snapshot 0 0 .carriedOut,
      .snapshot 0 0 .carriedOut, .plan 0 0 fun _ _ => 0, .migrate 0 0 (fun _ => 0) .carriedOut]
    c.AtRest crowdedHash {"a", "b", "c"} ∧ NoCollision crowdedHash 1 {"a", "b", "c"} ∧
      (∀ key, ∃ copy, c.Placed crowdedHash key copy) ∧
      c₁.issuedCalls crowdedHash steps = [.put (sampleNode "c") "k" (some 1) none] ∧
      c₁.transport.lookup "c" "j" = some (.plain 1) ∧
      ∃ c', Run (WorksReading crowdedHash) c₁ steps c' ∧ c'.Quiescent ∧
        c'.transport.lookup "c" "j" = none := by
  intro c c₁ steps
  obtain ⟨c', hrun, hc'⟩ := exists_reading_run crowdedHash c₁ steps
    (fun c' => decide (c'.Quiescent ∧ c'.transport.lookup "c" "j" = none)) (by decide)
    (by decide +kernel)
  obtain ⟨hquiescent, hgone⟩ := of_decide_eq_true hc'
  exact ⟨crowdedCluster_atRest, crowdedHash_noCollision, crowdedCluster_placed, by decide +kernel,
    by decide +kernel, c', hrun, hquiescent, hgone⟩

end DistributedCacheCluster

end DistributedCache
