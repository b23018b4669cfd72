import DistributedCache.Cluster.HealthyCalls

/-!
# Topology changes

A node joins with the store that the transport has for it, or a member leaves. The ring switches
at once, and a rebalance is submitted. When the background loop has nothing else to do, the
rebalance is for every key a job of the relocation machine that is alone at work.

## Main definitions

* `DistributedCacheCluster.AtRest` : nothing is left to do in the background.
* `DistributedCacheCluster.Rearranges` : the topology changes that the gateway accepts.
* `DistributedCacheCluster.Placed` : the members that hold a key are its owners.
* `DistributedCacheCluster.Rebalancing` : one rebalance is at work, alone.

## Main results

* `DistributedCacheCluster.Rearranges.exists_kept_owner` : some owner of a key stays its owner.
* `DistributedCacheCluster.Rebalancing.run` : background runs while a rebalance is at work.
* `DistributedCacheCluster.Rebalancing.placed` : a rebalance without failures places the keys.
-/

namespace DistributedCache

open Library Library.Relocation

variable {V : Type*} {hashToInt : String → ℕ}

namespace NodeTransport

variable {t : NodeTransport V} {now : Time} {node : NodeConfig} {runtime : Option (NodeRuntime V)}
  {nodeId : String}

/-- Registering a node leaves the other nodes as they are. -/
theorem runtimes_registerNode_of_ne (h : nodeId ≠ node.nodeId) :
    (t.registerNode now node runtime).runtimes nodeId = t.runtimes nodeId := by
  rw [registerNode]
  split
  · exact Function.update_of_ne h _ _
  · rfl

/-- The in-process transport gives a node that is registered the runtime, or an empty one. -/
theorem runtimes_registerNode_self (h : t.kind = .inProcess) :
    (t.registerNode now node runtime).runtimes node.nodeId =
      some (runtime.getD (.createDefault now node)) := by
  rw [registerNode, h]
  exact Function.update_self _ _ _

theorem reachable_registerNode : (t.registerNode now node runtime).reachable = t.reachable := by
  rw [registerNode]
  split <;> rfl

theorem lookup_registerNode_of_ne (h : nodeId ≠ node.nodeId) (key : String) :
    (t.registerNode now node runtime).lookup nodeId key = t.lookup nodeId key := by
  rw [lookup, runtimes_registerNode_of_ne h, lookup]

theorem capacity_registerNode_of_ne (h : nodeId ≠ node.nodeId) :
    (t.registerNode now node runtime).capacity nodeId = t.capacity nodeId := by
  rw [capacity, runtimes_registerNode_of_ne h, capacity]

theorem answers_registerNode_of_ne (h : nodeId ≠ node.nodeId) :
    (t.registerNode now node runtime).Answers nodeId ↔ t.Answers nodeId := by
  rw [answers_iff, answers_iff, reachable_registerNode, runtimes_registerNode_of_ne h]

end NodeTransport

namespace DistributedCacheCluster

/-- Members answer, no entry has a lifetime, and nothing is left to do in the background. The
members and those before them have ids in `ids`. -/
structure AtRest (hashToInt : String → ℕ) (ids : Set String) (c : DistributedCacheCluster V) :
    Prop where
  manager : c.manager.Reachable hashToInt ids
  noTtl : c.transport.NoTtl
  answers : ∀ nodeId ∈ c.manager.nodes, c.transport.Answers nodeId
  quiescent : c.Quiescent

/-- The node is not a member; once it is registered, calls to it succeed, and nothing in its
store has a lifetime. -/
structure Joins (c : DistributedCacheCluster V) (clock : Clock) (node : NodeConfig)
    (runtime : Option (NodeRuntime V)) : Prop where
  new : node.nodeId ∉ c.manager.nodes
  answers : (c.transport.registerNode (clock 0) node runtime).Answers node.nodeId
  noTtl : ∀ key entry, (c.transport.registerNode (clock 0) node runtime).lookup node.nodeId key =
    some entry → entry.expiresAt = none

/-- The topology changes that the gateway accepts: a node joins, or a member leaves that is not
the last one. The nodes that join have ids in `ids`. -/
inductive Rearranges (ids : Set String) (c : DistributedCacheCluster V) (clock : Clock) :
    Call V → Prop
  | addNode {node : NodeConfig} {runtime : Option (NodeRuntime V)} (hid : node.nodeId ∈ ids)
      (hjoins : c.Joins clock node runtime) : Rearranges ids c clock (.addNode node runtime)
  | removeNode {nodeId : String} (hmember : nodeId ∈ c.manager.nodes)
      (hother : ∃ other ∈ c.manager.nodes, other ≠ nodeId) :
      Rearranges ids c clock (.removeNode nodeId)

/-- A node that joins with the call has nothing stored for the key. -/
def JoinsWithout (c : DistributedCacheCluster V) (clock : Clock) (key : String) : Call V → Prop
  | .addNode node runtime =>
    (c.transport.registerNode (clock 0) node runtime).lookup node.nodeId key = none
  | _ => True

/-- The owners of the key hold the copy, and no other member holds the key. -/
def Placed (hashToInt : String → ℕ) (c : DistributedCacheCluster V) (key : String)
    (copy : Option (CacheEntry V)) : Prop :=
  ∀ nodeId ∈ c.manager.nodes, c.transport.lookup nodeId key =
    if nodeId ∈ c.manager.ring.ownerIds hashToInt key then copy else none

/-- From `c` to `c'` the members changed, and a rebalance was submitted; nothing else is left to
do in the background. -/
structure Rearranged (hashToInt : String → ℕ) (c c' : DistributedCacheCluster V) : Prop where
  healthy : c'.Healthy hashToInt
  replicaWrites : c'.replicaWrites = []
  done : ∀ task ∈ c.rebalances, task.Done
  rebalances : ∃ change, c'.rebalances = c.rebalances ++ [⟨change, c.manager.ring, .submitted⟩]
  rebalanceFuture : c'.rebalanceFuture = some c.rebalances.length

variable {c c' : DistributedCacheCluster V} {clock : Clock} {call : Call V} {ids : Set String}
  {key : String}

theorem AtRest.healthy (h : c.AtRest hashToInt ids) : c.Healthy hashToInt :=
  h.quiescent.healthy h.manager.coherent h.noTtl h.answers

/-- Whether a cluster is at rest does not depend on the kind of its transport. -/
theorem AtRest.withKind (h : c.AtRest hashToInt ids) (kind : TransportKind) :
    { c with transport := { c.transport with kind := kind } }.AtRest hashToInt ids :=
  ⟨h.manager, h.noTtl, h.answers, ⟨h.quiescent.replicaWrites, h.quiescent.rebalances⟩⟩

/-! ### The two topology calls -/

theorem addNode_eq {node : NodeConfig} (h : node.nodeId ∉ c.manager.nodes)
    (runtime : Option (NodeRuntime V)) : (c.serve hashToInt clock (.addNode node runtime)).2 =
      startRebalanceTask
        { c with
          transport := c.transport.registerNode (clock 0) node runtime
          manager := c.manager.addNode hashToInt (clock 1) node }
        .add c.manager.ring := by
  have hget : c.manager.getNode node.nodeId = none := OrderedDict.get?_eq_none_iff.mpr h
  rw [serve, addNode, if_neg (not_not.mpr hget)]
  rfl

theorem removeNode_eq {nodeId : String} (h : nodeId ∈ c.manager.nodes) :
    (c.serve hashToInt clock (.removeNode nodeId)).2 =
      startRebalanceTask { c with manager := c.manager.removeNode nodeId } .remove
        c.manager.ring := by
  have hget : c.manager.getNode nodeId ≠ none := fun hnone =>
    OrderedDict.get?_eq_none_iff.mp hnone h
  rw [serve, removeNode, if_neg hget]
  rfl

theorem Joins.noTtl_registerNode {node : NodeConfig} {runtime : Option (NodeRuntime V)}
    (h : c.Joins clock node runtime) (httl : c.transport.NoTtl) :
    (c.transport.registerNode (clock 0) node runtime).NoTtl := by
  intro nodeId key entry hentry
  by_cases hnode : nodeId = node.nodeId
  · subst hnode
    exact h.noTtl key entry hentry
  · rw [NodeTransport.lookup_registerNode_of_ne hnode] at hentry
    exact httl nodeId key entry hentry

/-- A node that joins leaves a cluster healthy, whatever is left to do in the background. -/
theorem Joins.healthy {node : NodeConfig} {runtime : Option (NodeRuntime V)}
    (h : c.Joins clock node runtime) (hc : c.Healthy hashToInt) :
    (c.serve hashToInt clock (.addNode node runtime)).2.Healthy hashToInt := by
  rw [addNode_eq h.new]
  refine ⟨hc.coherent.addNode _ node, ⟨h.noTtl_registerNode hc.noTtl.transport,
    hc.noTtl.replicaWrites, fun task htask => ?_⟩, fun nodeId hn => ?_,
    fun w hw => OrderedDict.mem_set.mpr (Or.inr (hc.replicaTargets w hw)),
    fun task htask nodeId hn => ?_⟩
  · rcases List.mem_append.mp htask with htask | htask
    · exact hc.noTtl.rebalances task htask
    · rw [List.mem_singleton.mp htask]
      trivial
  · rcases OrderedDict.mem_set.mp hn with rfl | hn
    · exact h.answers
    · have hne : nodeId ≠ node.nodeId := fun heq => h.new (heq ▸ hn)
      exact (NodeTransport.answers_registerNode_of_ne hne).mpr (hc.answers nodeId hn)
  · rcases List.mem_append.mp htask with htask | htask
    · exact OrderedDict.mem_set.mpr (Or.inr (hc.targets task htask nodeId hn))
    · rw [List.mem_singleton.mp htask] at hn
      cases hn

/-- A removal in a cluster at rest, also that of the last member. -/
theorem AtRest.rearranged_removeNode (hrest : c.AtRest hashToInt ids) {nodeId : String}
    (hmember : nodeId ∈ c.manager.nodes) :
    Rearranged hashToInt c (c.serve hashToInt clock (.removeNode nodeId)).2 := by
  have hc := hrest.healthy
  have hquiescent := hrest.quiescent
  refine ⟨?_, ?_, hquiescent.rebalances, ⟨.remove, ?_⟩, ?_⟩ <;> rw [removeNode_eq hmember]
  · refine ⟨hc.coherent.removeNode nodeId, ⟨hc.noTtl.transport, hc.noTtl.replicaWrites,
      fun task htask => ?_⟩, fun id hid => hc.answers id (OrderedDict.mem_pop.mp hid).2,
      fun w hw => ?_, fun task htask id hid => ?_⟩
    · rcases List.mem_append.mp htask with htask | htask
      · exact hc.noTtl.rebalances task htask
      · rw [List.mem_singleton.mp htask]
        trivial
    · exact absurd (hquiescent.replicaWrites ▸ hw) List.not_mem_nil
    · rcases List.mem_append.mp htask with htask | htask
      · obtain ⟨ring, hphase⟩ := done_iff.mp (hquiescent.rebalances task htask)
        rw [hphase] at hid
        cases hid
      · rw [List.mem_singleton.mp htask] at hid
        cases hid
  · exact hquiescent.replicaWrites
  · rfl
  · rfl

/-- A topology change of a cluster at rest. -/
theorem Rearranges.rearranged (h : c.Rearranges ids clock call) (hrest : c.AtRest hashToInt ids) :
    Rearranged hashToInt c (c.serve hashToInt clock call).2 := by
  cases h with
  | addNode hid hjoins =>
    refine ⟨hjoins.healthy hrest.healthy, ?_, hrest.quiescent.rebalances, ⟨.add, ?_⟩, ?_⟩ <;>
      rw [addNode_eq hjoins.new]
    · exact hrest.quiescent.replicaWrites
    · rfl
    · rfl
  | removeNode hmember hother => exact hrest.rearranged_removeNode hmember

theorem Rearranges.reachable (h : c.Rearranges ids clock call)
    (hc : c.manager.Reachable hashToInt ids) :
    (c.serve hashToInt clock call).2.manager.Reachable hashToInt ids := by
  cases h with
  | addNode hid hjoins =>
    rw [addNode_eq hjoins.new]
    exact .addNode _ _ hid hc
  | @removeNode nodeId hmember hother =>
    rw [removeNode_eq hmember]
    exact .removeNode nodeId hc

theorem Rearranges.replicas (h : c.Rearranges ids clock call) :
    (c.serve hashToInt clock call).2.manager.ring.replicas = c.manager.ring.replicas := by
  cases h with
  | addNode hid hjoins =>
    rw [addNode_eq hjoins.new]
    rfl
  | removeNode hmember hother =>
    rw [removeNode_eq hmember]
    rfl

/-- Members that stay keep their copies. -/
theorem Rearranges.lookup_of_mem (h : c.Rearranges ids clock call) {nodeId : String}
    (hn : nodeId ∈ c.manager.nodes) (key : String) :
    (c.serve hashToInt clock call).2.transport.lookup nodeId key =
      c.transport.lookup nodeId key := by
  cases h with
  | addNode hid hjoins =>
    rw [addNode_eq hjoins.new]
    exact NodeTransport.lookup_registerNode_of_ne (fun heq => hjoins.new (heq ▸ hn)) key
  | removeNode hmember hother =>
    rw [removeNode_eq hmember]
    rfl

/-- A node that joins without the key does not hold it. -/
theorem Rearranges.lookup_of_notMem (h : c.Rearranges ids clock call) {nodeId : String}
    (hn : nodeId ∈ (c.serve hashToInt clock call).2.manager.nodes)
    (hnew : nodeId ∉ c.manager.nodes) (hwithout : c.JoinsWithout clock key call) :
    (c.serve hashToInt clock call).2.transport.lookup nodeId key = none := by
  cases h with
  | addNode hid hjoins =>
    rw [addNode_eq hjoins.new] at hn ⊢
    rcases OrderedDict.mem_set.mp hn with rfl | hn
    · exact hwithout
    · exact absurd hn hnew
  | removeNode hmember hother =>
    rw [removeNode_eq hmember] at hn
    exact absurd (OrderedDict.mem_pop.mp hn).2 hnew

/-- After the change the members hold a key that was placed as before it. -/
theorem Rearranges.lookup_of_placed (h : c.Rearranges ids clock call)
    (hcoherent : c.manager.Coherent hashToInt) {copy : Option (CacheEntry V)}
    (hplaced : c.Placed hashToInt key copy) (hwithout : c.JoinsWithout clock key call)
    {nodeId : String} (hn : nodeId ∈ (c.serve hashToInt clock call).2.manager.nodes) :
    (c.serve hashToInt clock call).2.transport.lookup nodeId key =
      if nodeId ∈ c.manager.ring.ownerIds hashToInt key then copy else none := by
  by_cases hold : nodeId ∈ c.manager.nodes
  · rw [h.lookup_of_mem hold, hplaced nodeId hold]
  · have hnot : nodeId ∉ c.manager.ring.ownerIds hashToInt key := fun hmem =>
      hold (hcoherent.mem_of_mem_ownerIds hmem)
    rw [h.lookup_of_notMem hn hold hwithout, if_neg hnot]

/-- Without collisions some owner of a key is its owner before and after the change. -/
theorem Rearranges.exists_kept_owner (h : c.Rearranges ids clock call)
    (hreachable : c.manager.Reachable hashToInt ids)
    (hcf : NoCollision hashToInt c.manager.ring.replicas ids) {nodeId : String}
    (hn : nodeId ∈ c.manager.nodes) (key : String) :
    ∃ node, node ∈ c.manager.ring.owners hashToInt key ∧
      node ∈ (c.serve hashToInt clock call).2.manager.ring.owners hashToInt key := by
  simp only [ConsistentHashRing.mem_owners]
  cases h with
  | @addNode node runtime hid hjoins =>
    obtain ⟨p, q, hpair, hnew⟩ := hreachable.ownerPair_addNode hcf hn hjoins.new hid key
    refine ⟨p, Or.inl (by rw [hpair]), ?_⟩
    rw [addNode_eq hjoins.new]
    change ((c.manager.ring.addNode hashToInt node).ownerPair hashToInt key).1 = some p ∨
      ((c.manager.ring.addNode hashToInt node).ownerPair hashToInt key).2 = some p
    rcases hnew with hnew | hnew | hnew <;> simp [hnew]
  | @removeNode nodeId hmember hother =>
    obtain ⟨other, hmem', hne⟩ := hother
    have hmem := @(hreachable.coherent).mem_ring_iff
    obtain ⟨p, q, hpair⟩ := (hreachable.fullyPlaced hcf).exists_replica (hmem.mpr hmember)
      (hmem.mpr hmem') (Ne.symm hne) key
    rw [removeNode_eq hmember, hpair]
    by_cases hp : p.nodeId = nodeId
    · exact ⟨q, Or.inr rfl, Or.inl (ConsistentHashRing.fst_ownerPair_removeNode_of_eq hpair hp)⟩
    · exact ⟨p, Or.inl rfl, Or.inl (ConsistentHashRing.fst_ownerPair_removeNode_of_ne hpair hp)⟩

/-- A key that had an owner which is a member after the change has an owner then. -/
theorem Rearranges.owners_ne_nil (h : c.Rearranges ids clock call) {nodeId : String}
    (howner : nodeId ∈ c.manager.ring.ownerIds hashToInt key)
    (hmember : nodeId ∈ (c.serve hashToInt clock call).2.manager.nodes) :
    (c.serve hashToInt clock call).2.manager.ring.owners hashToInt key ≠ [] := by
  cases h with
  | @addNode node runtime hid hjoins =>
    obtain ⟨target, htarget⟩ : ∃ target, ((c.manager.ring.addNode hashToInt node).ownerPair
        hashToInt key).1 = some target :=
      Option.isSome_iff_exists.mp (ConsistentHashRing.isSome_fst_ownerPair_addNode _ node key)
    rw [addNode_eq hjoins.new]
    exact List.ne_nil_of_mem ((ConsistentHashRing.mem_owners hashToInt).mpr (Or.inl htarget))
  | @removeNode leaving hleaving hother =>
    obtain ⟨node, hnode, rfl⟩ := (ConsistentHashRing.mem_ownerIds hashToInt).mp howner
    rw [removeNode_eq hleaving] at hmember ⊢
    have hne : node.nodeId ≠ leaving := (OrderedDict.mem_pop.mp hmember).1
    exact List.ne_nil_of_mem (ConsistentHashRing.mem_owners_removeNode hnode hne)

/-! ### One rebalance at work -/

/-- From `c₀` the members changed to those of `c₁`, and the background loop went on from `c₁` to
`c`, with `succeeds` without failures: nothing but the new rebalance is at work. -/
structure Rebalancing (hashToInt : String → ℕ) (succeeds : Prop)
    (c₀ c₁ c : DistributedCacheCluster V) : Prop where
  healthy : c.Healthy hashToInt
  front : FrontKept c₁ c
  replicaWrites : c.replicaWrites = []
  lone : ∀ key, Lone (fun nodeId => c₁.transport.lookup nodeId key)
    (c₀.manager.ring.ownerSet hashToInt key) (c₁.manager.ring.ownerSet hashToInt key)
    c₁.manager.nodes.keys succeeds c₀.rebalances.length (c.keyView hashToInt key)

variable {c₀ c₁ : DistributedCacheCluster V} {succeeds : Prop}

theorem Rearranged.rebalancing (h : Rearranged hashToInt c₀ c₁) :
    Rebalancing hashToInt succeeds c₀ c₁ c₁ := by
  obtain ⟨change, hrebalances⟩ := h.rebalances
  refine ⟨h.healthy, .refl c₁, h.replicaWrites, fun key => ⟨rfl, rfl, fun j job hj hne => ?_, ?_⟩⟩
  · rw [keyView, hrebalances, List.getElem?_map] at hj
    obtain ⟨task, htask, rfl⟩ := Option.map_eq_some_iff.mp hj
    refine ended_view (h.done task ?_)
    rcases lt_or_ge j c₀.rebalances.length with hlt | hge
    · rw [List.getElem?_append_left hlt] at htask
      exact List.mem_of_getElem? htask
    · have hlt := (List.getElem?_eq_some_iff.mp htask).1
      rw [List.length_append, List.length_singleton] at hlt
      omega
  · refine ⟨.waiting, ?_, .waiting⟩
    rw [keyView, hrebalances, List.getElem?_map, List.getElem?_concat_length]
    rfl

/-- Without replica writes of the key, what a background step does for it is the action of a
job. -/
theorem actionOf_ofJob (h : ∀ w ∈ c.replicaWrites, w.key ≠ key) {s : BackgroundStep}
    {a : Action String (CacheEntry V)} (ha : c.actionOf key s = some a) : a.OfJob := by
  cases s with
  | replicate index clock outcome =>
    rw [actionOf] at ha
    split_ifs at ha
    obtain ⟨write, hwrite, -⟩ := Option.map_eq_some_iff.mp ha
    obtain ⟨w, hw, hwrite⟩ := Option.bind_eq_some_iff.mp hwrite
    rw [ReplicaWrite.write, if_neg (h w (List.mem_of_getElem? hw))] at hwrite
    cases hwrite
  | begin index => obtain rfl := Option.some.inj ha; trivial
  | snapshot index now outcome =>
    obtain rfl := Option.some.inj ha
    split_ifs <;> trivial
  | plan index now clock => obtain rfl := Option.some.inj ha; trivial
  | migrate index i clock outcome =>
    obtain ⟨w, -, rfl⟩ := Option.map_eq_some_iff.mp ha
    split_ifs <;> trivial
  | cleanup nodeId now => cases ha

theorem actionOf_succeeds {s : BackgroundStep} (hs : s.Succeeds)
    {a : Action String (CacheEntry V)} (ha : c.actionOf key s = some a) : a.Succeeds := by
  cases s with
  | replicate index clock outcome =>
    obtain rfl : outcome = .carriedOut := hs
    rw [actionOf, if_pos rfl] at ha
    obtain ⟨w, -, rfl⟩ := Option.map_eq_some_iff.mp ha
    trivial
  | begin index => obtain rfl := Option.some.inj ha; trivial
  | snapshot index now outcome =>
    obtain rfl : outcome = .carriedOut := hs
    obtain rfl := Option.some.inj ha
    rw [if_pos rfl]
    trivial
  | plan index now clock => obtain rfl := Option.some.inj ha; trivial
  | migrate index i clock outcome =>
    obtain rfl : outcome = .carriedOut := hs
    obtain ⟨w, -, rfl⟩ := Option.map_eq_some_iff.mp ha
    rw [if_pos rfl]
    trivial
  | cleanup nodeId now => cases ha

namespace Rebalancing

/-- One background step. -/
theorem step (h : Rebalancing hashToInt succeeds c₀ c₁ c) {s : BackgroundStep}
    (hs : c.Works hashToInt s c') (hsucceeds : succeeds → s.Succeeds) :
    Rebalancing hashToInt succeeds c₀ c₁ c' := by
  have hfront := frontKept_runBackground hs.2
  refine ⟨h.healthy.runBackground hs.1 hs.2, h.front.trans hfront, ?_, fun key => ?_⟩
  · have hsub := hfront.replicaWrites
    rw [h.replicaWrites] at hsub
    exact List.eq_nil_of_subset_nil hsub.subset
  · have hrefines := refines_runBackground h.healthy hs.1 hs.2 key
    cases ha : c.actionOf key s with
    | none =>
      rw [ha] at hrefines
      rw [show c'.keyView hashToInt key = c.keyView hashToInt key from hrefines]
      exact h.lone key
    | some a =>
      rw [ha] at hrefines
      have hnone : ∀ w ∈ c.replicaWrites, w.key ≠ key := by simp [h.replicaWrites]
      exact (h.lone key).step hrefines (actionOf_ofJob hnone ha) fun hsucc =>
        actionOf_succeeds (hsucceeds hsucc) ha

/-- A background run, where any step may fail. -/
theorem run (h : Rebalancing hashToInt False c₀ c₁ c) {steps : List BackgroundStep}
    (hrun : Run (Works hashToInt) c steps c') : Rebalancing hashToInt False c₀ c₁ c' :=
  hrun.invariant (fun _ _ _ h hs => h.step hs False.elim) h

/-- A background run without failures. -/
theorem runWell (h : Rebalancing hashToInt True c₀ c₁ c) {steps : List BackgroundStep}
    (hrun : Run (WorksWell hashToInt) c steps c') : Rebalancing hashToInt True c₀ c₁ c' :=
  hrun.invariant (fun _ _ _ h hs => h.step hs.2 fun _ => hs.1) h

theorem nodes (h : Rebalancing hashToInt succeeds c₀ c₁ c) :
    c.manager.nodes = c₁.manager.nodes := by
  rw [h.front.manager]

theorem ring (h : Rebalancing hashToInt succeeds c₀ c₁ c) :
    c.manager.ring = c₁.manager.ring := by
  rw [h.front.manager]

/-- The owners of a key that are members keep the copies that they had at first. -/
theorem lookup_of_owner (h : Rebalancing hashToInt succeeds c₀ c₁ c) {node : NodeConfig}
    (hnode : node ∈ c₁.manager.ring.owners hashToInt key) {entry : CacheEntry V}
    (hentry : c₁.transport.lookup node.nodeId key = some entry) :
    c.transport.lookup node.nodeId key = some entry := by
  have hmem : node.nodeId ∈ c₁.manager.nodes := by
    rw [← h.nodes]
    exact h.healthy.mem_of_mem_owners (h.ring ▸ hnode)
  exact (h.lone key).hold_of_mem_goal
    (ConsistentHashRing.mem_ownerSet.mpr (List.mem_map_of_mem hnode)) hmem hentry

/-- All copies on members were there at first. -/
theorem exists_of_lookup (h : Rebalancing hashToInt succeeds c₀ c₁ c) {nodeId : String}
    (hn : nodeId ∈ c₁.manager.nodes) {entry : CacheEntry V}
    (hentry : c.transport.lookup nodeId key = some entry) :
    ∃ other ∈ c₁.manager.nodes, c₁.transport.lookup other key = some entry := by
  rcases (h.lone key).exists_of_hold hentry with hold | hother
  · exact ⟨nodeId, hn, hold⟩
  · exact hother

/-- Copies that agreed at first agree later. -/
theorem agree (h : Rebalancing hashToInt succeeds c₀ c₁ c) {entry : CacheEntry V}
    (hagree : ∀ nodeId ∈ c₁.manager.nodes, c₁.transport.lookup nodeId key = none ∨
      c₁.transport.lookup nodeId key = some entry) {nodeId : String}
    (hn : nodeId ∈ c₁.manager.nodes) :
    c.transport.lookup nodeId key = none ∨ c.transport.lookup nodeId key = some entry := by
  cases hlookup : c.transport.lookup nodeId key with
  | none => exact Or.inl rfl
  | some entry' =>
    obtain ⟨other, hother, heq⟩ := h.exists_of_lookup hn hlookup
    rcases hagree other hother with hnone | hsome
    · rw [hnone] at heq
      cases heq
    · exact Or.inr (heq.symm.trans hsome)

/-- **A rebalance without failures places the keys.** When the members held a copy as its owners
on the old ring, and a node that joined held it at most as an owner on the new one, the owners
on the new ring hold it in the end, and no other member does. Some old owner has to stay. -/
theorem placed (h : Rebalancing hashToInt True c₀ c₁ c) (hquiescent : c.Quiescent)
    {copy : Option (CacheEntry V)}
    (hcopy : ∀ nodeId ∈ c₁.manager.nodes, c₁.transport.lookup nodeId key =
        (if nodeId ∈ c₀.manager.ring.ownerIds hashToInt key then copy else none) ∨
      nodeId ∈ c₁.manager.ring.ownerIds hashToInt key ∧ c₁.transport.lookup nodeId key = copy)
    (hkept : copy ≠ none → ∃ nodeId ∈ c₀.manager.ring.ownerIds hashToInt key,
      nodeId ∈ c₁.manager.nodes)
    (howners : copy ≠ none → c₁.manager.ring.owners hashToInt key ≠ []) :
    c.Placed hashToInt key copy := by
  intro nodeId hn
  rw [h.nodes] at hn
  rw [h.ring]
  cases copy with
  | none =>
    have hnone : ∀ n ∈ c₁.manager.nodes, c₁.transport.lookup n key = none := fun n hn => by
      rcases hcopy n hn with heq | ⟨-, heq⟩
      · rw [heq, ite_self]
      · exact heq
    have hidle := congrFun ((h.lone key).hold_eq fun _ => hnone) nodeId
    change c.transport.lookup nodeId key = _ at hidle
    rw [hidle, hnone nodeId hn, ite_self]
  | some entry =>
    obtain ⟨kept, hold, hmem⟩ := hkept (by simp)
    obtain ⟨node, hnode⟩ := List.exists_mem_of_ne_nil _ (howners (by simp))
    have hgoal := ConsistentHashRing.mem_ownerSet.mpr (List.mem_map_of_mem hnode)
    simp only [← ConsistentHashRing.mem_ownerSet] at hcopy hold ⊢
    exact (h.lone key).exact_goal trivial (ended_of_done hquiescent.rebalances _) ⟨node.nodeId, hgoal⟩
      hcopy hmem hold hn

end Rebalancing

end DistributedCacheCluster

/-! ### Small clusters that hold a key -/

/-- The cluster of `sampleCluster` in which the nodes `holders` have the value `1` for `"k"`. -/
def sampleHolding (ids holders : List String) : DistributedCacheCluster ℕ :=
  { sampleCluster ids with
    transport := { (sampleCluster ids).transport with
      runtimes := fun nodeId =>
        if nodeId ∈ holders then
          some ((sampleRuntime nodeId).putLocal (fun _ => 0) "k" (some 1) none).2
        else if nodeId ∈ ids then some (sampleRuntime nodeId) else none } }

theorem sampleHolding_lookup (ids holders : List String) (nodeId key : String) :
    (sampleHolding ids holders).transport.lookup nodeId key =
      if nodeId ∈ holders ∧ key = "k" then some (.plain 1) else none := by
  change (if nodeId ∈ holders then
      some ((sampleRuntime nodeId).putLocal (fun _ => 0) "k" (some 1) none).2
    else if nodeId ∈ ids then some (sampleRuntime nodeId) else none).bind _ = _
  by_cases hholds : nodeId ∈ holders
  · have hroom : (sampleRuntime nodeId).store.HasRoom "k" :=
      show 0 < 1024 by decide
    rw [if_pos hholds, Option.bind_some]
    refine (CacheStore.get?_entries_put_none hroom 0 (some 1) key).trans ?_
    by_cases hk : key = "k"
    · rw [if_pos hk, if_pos ⟨hholds, hk⟩]
      rfl
    · rw [if_neg hk, if_neg fun h => hk h.2]
      rfl
  · have hcell : ¬(nodeId ∈ holders ∧ key = "k") := fun h => hholds h.1
    rw [if_neg hholds, if_neg hcell]
    split_ifs <;> rfl

/-- The owners of `"k"` among `"a"` and `"b"` are both. -/
theorem sampleHolding_placed :
    (sampleHolding ["a", "b"] ["a", "b"]).Placed sampleHash "k" (some (.plain 1)) := by
  intro nodeId _
  have howners : (sampleHolding ["a", "b"] ["a", "b"]).manager.ring.ownerIds sampleHash "k" =
      ["a", "b"] := by decide +kernel
  rw [howners, sampleHolding_lookup]
  simp

theorem sampleHash_noCollision : NoCollision sampleHash 1 {"m", "n", "a", "b", "c"} := by
  intro x hx y hy i hi j hj
  obtain rfl : i = 0 := by omega
  obtain rfl : j = 0 := by omega
  simp only [Set.mem_insert_iff, Set.mem_singleton_iff] at hx hy
  rcases hx with rfl | rfl | rfl | rfl | rfl <;> rcases hy with rfl | rfl | rfl | rfl | rfl <;>
    decide

theorem sampleHolding_atRest (ids holders : List String) {S : Set String}
    (hids : ∀ nodeId ∈ ids, nodeId ∈ S) :
    (sampleHolding ids holders).AtRest sampleHash S where
  manager := ClusterManager.Reachable.init (fun _ => 0) (ids.map sampleNode) 5 (by decide +kernel) 1
    Nat.one_pos fun node hnode => by
      obtain ⟨nodeId, hid, rfl⟩ := List.mem_map.mp hnode
      exact hids nodeId hid
  noTtl nodeId key entry hentry := by
    rw [sampleHolding_lookup] at hentry
    split_ifs at hentry
    rw [← Option.some.inj hentry]
    rfl
  answers nodeId hn := by
    obtain ⟨node, hnode, rfl⟩ := ClusterManager.exists_of_mem_nodes_init hn
    obtain ⟨id, hid, rfl⟩ := List.mem_map.mp hnode
    refine NodeTransport.answers_iff.mpr ⟨rfl, ?_⟩
    change ∃ rt, (if id ∈ holders then some ((sampleRuntime id).putLocal _ "k" (some 1) none).2
      else if id ∈ ids then some (sampleRuntime id) else none) = some rt
    split_ifs <;> exact ⟨_, rfl⟩
  quiescent := ⟨rfl, fun task htask => by cases htask⟩

end DistributedCache
