import DistributedCache.Cluster.History

/-!
# Members that crash

A member stops: calls to it raise, and its heartbeat goes stale. Clients go on, and an operator
removes the member, whose store is lost; a node that is started again is empty and may be added
again. As long as the removal of a member has ended before the next one crashes, the cluster stays
a map: every key has an owner that is alive, and the rebalance gives it a second one again.

## Main definitions

* `Outage`, `OutageEvent`, `Outage.Step` : a cluster of which at most one member is down.
* `Outage.Mirrors` : the members that are alive hold the map.

## Main results

* `Outage.Mirrors.step` : every event keeps the map on the members that are alive.
* `Outage.crashes_lose_nothing` : one crash at a time loses no acknowledged call.
* `Outage.recovered_member_is_stale` : what gets answer when a member comes back unremoved.
-/

namespace DistributedCache

open Library DistributedCacheCluster

variable {V : Type*} {hashToInt : String → ℕ} {ids : Set String}

namespace NodeTransport

/-- The node stops, and calls to it raise. -/
def crash (t : NodeTransport V) (nodeId : String) : NodeTransport V :=
  { t with reachable := Function.update t.reachable nodeId false }

/-- The node is started, with another runtime. -/
def restart (t : NodeTransport V) (nodeId : String) (runtime : NodeRuntime V) :
    NodeTransport V :=
  { t with
    runtimes := Function.update t.runtimes nodeId (some runtime)
    reachable := Function.update t.reachable nodeId true }

variable {t : NodeTransport V} {nodeId other : String} {runtime : NodeRuntime V}

theorem reachable_crash_of_ne (h : other ≠ nodeId) :
    (t.crash nodeId).reachable other = t.reachable other :=
  Function.update_of_ne h _ _

theorem answers_crash_of_ne (h : other ≠ nodeId) :
    (t.crash nodeId).Answers other ↔ t.Answers other := by
  rw [answers_iff, answers_iff, reachable_crash_of_ne h]
  rfl

theorem runtimes_restart_self :
    (t.restart nodeId runtime).runtimes nodeId = some runtime :=
  Function.update_self _ _ _

theorem runtimes_restart_of_ne (h : other ≠ nodeId) :
    (t.restart nodeId runtime).runtimes other = t.runtimes other :=
  Function.update_of_ne h _ _

theorem reachable_restart_of_ne (h : other ≠ nodeId) :
    (t.restart nodeId runtime).reachable other = t.reachable other :=
  Function.update_of_ne h _ _

theorem lookup_restart_of_ne (h : other ≠ nodeId) (key : String) :
    (t.restart nodeId runtime).lookup other key = t.lookup other key := by
  rw [lookup, runtimes_restart_of_ne h, lookup]

theorem answers_restart_of_ne (h : other ≠ nodeId) :
    (t.restart nodeId runtime).Answers other ↔ t.Answers other := by
  rw [answers_iff, answers_iff, reachable_restart_of_ne h, runtimes_restart_of_ne h]

/-- A node that is started with an empty store has no entry with a lifetime. -/
theorem NoTtl.restart (h : t.NoTtl) (nodeId : String)
    (hempty : ∀ key, runtime.store.entries.get? key = none) :
    (t.restart nodeId runtime).NoTtl := by
  intro other key entry hentry
  by_cases hn : other = nodeId
  · rw [lookup, hn, runtimes_restart_self, Option.bind_some, hempty] at hentry
    cases hentry
  · rw [lookup_restart_of_ne hn] at hentry
    exact h other key entry hentry

end NodeTransport

/-- A cluster, the member that is down if there is one, and the map of the calls. -/
structure Outage (V : Type*) where
  cluster : DistributedCacheCluster V
  down : Option String
  map : KeyValueMap V

/-- A client call or a topology change, each with the background steps up to the next event; a
heartbeat; a member stops; a node is started. -/
inductive OutageEvent (V : Type*)
  | client (clock : Clock) (op : ClientOp V) (background : List BackgroundStep)
  | change (clock : Clock) (call : Call V) (background : List BackgroundStep)
  | heartbeat (clock : Clock) (nodeId : String)
  | crash (nodeId : String)
  | restart (nodeId : String) (runtime : NodeRuntime V)

/-- The map after the event. -/
def OutageEvent.run (m : KeyValueMap V) : OutageEvent V → KeyValueMap V
  | .client _ op _ => op.run m
  | _ => m

/-- A client call or a heartbeat. -/
def OutageEvent.Serves : OutageEvent V → Prop
  | .client _ _ _ | .heartbeat _ _ => True
  | _ => False

namespace Outage

def alive (x : Outage V) (nodeId : String) : Bool :=
  decide (x.down ≠ some nodeId)

/-- All members are alive at all readings of the clock but the one that is down, which is dead. -/
def Steady (x : Outage V) (clock : Clock) : Prop :=
  ∀ nodeId ∈ x.cluster.manager.nodes,
    x.cluster.manager.AliveThroughout clock nodeId (x.alive nodeId)

/-- The steps of a history in which one member at a time crashes. No other call to a node fails
and nothing is evicted. While a member is down, the only topology change is its removal. Nodes
are started, and join, with empty stores. -/
inductive Step (hashToInt : String → ℕ) (ids : Set String) :
    Outage V → OutageEvent V → Outage V → Prop
  | client {x : Outage V} {clock : Clock} {op : ClientOp V} {background : List BackgroundStep}
      {c : DistributedCacheCluster V} (hsteady : x.Steady clock)
      (hroom : x.cluster.NoEviction hashToInt (.call clock op.call))
      (hrun : Run (WorksWell hashToInt) (x.cluster.serve hashToInt clock op.call).2 background c)
      (hquiescent : c.Quiescent) :
      Step hashToInt ids x (.client clock op background)
        ⟨c, x.down, op.observe (x.cluster.serve hashToInt clock op.call).1 x.map⟩
  | change {x : Outage V} {clock : Clock} {call : Call V} {background : List BackgroundStep}
      {c : DistributedCacheCluster V} (hcall : x.cluster.Rearranges ids clock call)
      (hdown : ∀ nodeId ∈ x.down, call = .removeNode nodeId)
      (hwithout : ∀ key, x.cluster.JoinsWithout clock key call)
      (hrun : Run (WorksWell hashToInt) (x.cluster.serve hashToInt clock call).2 background c)
      (hquiescent : c.Quiescent) :
      Step hashToInt ids x (.change clock call background) ⟨c, none, x.map⟩
  | heartbeat {x : Outage V} (clock : Clock) (nodeId : String) :
      Step hashToInt ids x (.heartbeat clock nodeId)
        { x with cluster := (x.cluster.serve hashToInt clock (.heartbeat nodeId)).2 }
  | crash {x : Outage V} {nodeId : String} (hdown : x.down = none)
      (hother : ∃ other ∈ x.cluster.manager.nodes, other ≠ nodeId) :
      Step hashToInt ids x (.crash nodeId)
        { x with
          cluster := { x.cluster with transport := x.cluster.transport.crash nodeId }
          down := some nodeId }
  | restart {x : Outage V} {nodeId : String} {runtime : NodeRuntime V}
      (hnew : nodeId ∉ x.cluster.manager.nodes)
      (hempty : ∀ key, runtime.store.entries.get? key = none) :
      Step hashToInt ids x (.restart nodeId runtime)
        { x with
          cluster := { x.cluster with transport := x.cluster.transport.restart nodeId runtime } }

/-- Some member, empty stores, no background work, and no member is down. -/
structure Start (hashToInt : String → ℕ) (ids : Set String) (x : Outage V) : Prop where
  rest : x.cluster.AtRest hashToInt ids
  noCollision : NoCollision hashToInt x.cluster.manager.ring.replicas ids
  member : ∃ nodeId, nodeId ∈ x.cluster.manager.nodes
  stores : ∀ nodeId ∈ x.cluster.manager.nodes, ∀ key, x.cluster.transport.lookup nodeId key = none
  down : x.down = none
  map : x.map = fun _ => none

/-- Some member is alive; the members that are alive answer, and hold exactly the keys that they
own, with the values of the map. -/
structure Mirrors (hashToInt : String → ℕ) (ids : Set String) (x : Outage V) : Prop where
  manager : x.cluster.manager.Reachable hashToInt ids
  noCollision : NoCollision hashToInt x.cluster.manager.ring.replicas ids
  noTtl : x.cluster.transport.NoTtl
  quiescent : x.cluster.Quiescent
  someAlive : ∃ nodeId ∈ x.cluster.manager.nodes, x.alive nodeId = true
  answers : ∀ nodeId ∈ x.cluster.manager.nodes, x.alive nodeId = true →
    x.cluster.transport.Answers nodeId
  placed : ∀ key, ∀ nodeId ∈ x.cluster.manager.nodes, x.alive nodeId = true →
    x.cluster.transport.lookup nodeId key =
      if nodeId ∈ x.cluster.manager.ring.ownerIds hashToInt key then (x.map key).map .plain
      else none

variable {x x' : Outage V} {clock : Clock} {background : List BackgroundStep}
  {c : DistributedCacheCluster V}

theorem alive_iff {nodeId : String} : x.alive nodeId = true ↔ x.down ≠ some nodeId :=
  decide_eq_true_iff

theorem alive_of_down_eq_none (h : x.down = none) : x.alive = fun _ => true := by
  funext nodeId
  rw [alive_iff, h]
  exact Option.some_ne_none _ |>.symm

theorem Start.mirrors (h : x.Start hashToInt ids) : x.Mirrors hashToInt ids where
  manager := h.rest.manager
  noCollision := h.noCollision
  noTtl := h.rest.noTtl
  quiescent := h.rest.quiescent
  someAlive := by
    obtain ⟨nodeId, hn⟩ := h.member
    exact ⟨nodeId, hn, by rw [alive_of_down_eq_none h.down]⟩
  answers nodeId hn _ := h.rest.answers nodeId hn
  placed key nodeId hn _ := by rw [h.stores nodeId hn, h.map, Option.map_none, ite_self]

namespace Mirrors

theorem mem_of_mem_owners (h : x.Mirrors hashToInt ids) {key : String} {node : NodeConfig}
    (hnode : node ∈ x.cluster.manager.ring.owners hashToInt key) :
    node.nodeId ∈ x.cluster.manager.nodes :=
  h.manager.coherent.mem_of_mem_ownerIds (ConsistentHashRing.mem_ownerIds_of_mem hashToInt hnode)

/-- Without collisions every key has an owner that is alive. -/
theorem liveOwners_ne_nil (h : x.Mirrors hashToInt ids) (key : String) :
    x.cluster.manager.liveOwners hashToInt x.alive key ≠ [] := by
  obtain ⟨other, hother, halive⟩ := h.someAlive
  have hmem := @(h.manager.coherent).mem_ring_iff
  have hplaced := h.manager.fullyPlaced h.noCollision
  obtain ⟨p, q, hpair⟩ := hplaced.exists_primary (hmem.mpr hother) key
  have hp : p ∈ x.cluster.manager.ring.owners hashToInt key :=
    (ConsistentHashRing.mem_owners hashToInt).mpr (Or.inl (by rw [hpair]))
  by_cases hdown : x.alive p.nodeId = true
  · exact List.ne_nil_of_mem (List.mem_filter.mpr ⟨hp, hdown⟩)
  · -- the primary is down, so there is a replica, and that is another member
    have heq : x.down = some p.nodeId := not_not.mp fun hne => hdown (alive_iff.mpr hne)
    have hne : p.nodeId ≠ other := fun hpo => alive_iff.mp halive (hpo ▸ heq)
    obtain ⟨p', q', hpair'⟩ := hplaced.exists_replica (hmem.mpr (h.mem_of_mem_owners hp))
      (hmem.mpr hother) hne key
    have hq : q' ∈ x.cluster.manager.ring.owners hashToInt key :=
      (ConsistentHashRing.mem_owners hashToInt).mpr (Or.inr (by rw [hpair']))
    obtain rfl : p = p' := by
      rw [hpair] at hpair'
      exact Option.some.inj (Prod.mk.inj hpair').1
    have hids := ConsistentHashRing.nodup_ownerIds hashToInt x.cluster.manager.ring key
    rw [ConsistentHashRing.ownerIds, ConsistentHashRing.owners, hpair'] at hids
    refine List.ne_nil_of_mem (List.mem_filter.mpr ⟨hq, alive_iff.mpr fun hdown' => ?_⟩)
    exact (List.pairwise_pair.mp hids) (Option.some.inj (heq.symm.trans hdown'))

/-- A client call is served as the map says. -/
theorem served (h : x.Mirrors hashToInt ids) {op : ClientOp V} (hsteady : x.Steady clock)
    (hroom : x.cluster.NoEviction hashToInt (.call clock op.call)) :
    ∃ r c₁, x.cluster.serve hashToInt clock op.call = (some r, c₁) ∧
      Served hashToInt x.alive x.map op x.cluster r c₁ := by
  refine DistributedCacheCluster.served op (h.quiescent.noTtl h.noTtl) h.quiescent.replicaWrites
    (fun node hnode => hsteady _ (h.mem_of_mem_owners hnode)) (fun node hnode => ?_) hroom
    fun node hnode => ?_
  all_goals obtain ⟨howner, halive⟩ := List.mem_filter.mp hnode
  · exact h.answers _ (h.mem_of_mem_owners howner) halive
  · rw [h.placed _ _ (h.mem_of_mem_owners howner) halive,
      if_pos (ConsistentHashRing.mem_ownerIds_of_mem hashToInt howner)]

/-- A client call and the background steps until all replica writes have landed. -/
theorem drained (h : x.Mirrors hashToInt ids) {op : ClientOp V} (hsteady : x.Steady clock)
    (hroom : x.cluster.NoEviction hashToInt (.call clock op.call))
    (hrun : Run (WorksWell hashToInt) (x.cluster.serve hashToInt clock op.call).2 background c)
    (hquiescent : c.Quiescent) :
    ∃ r c₁, x.cluster.serve hashToInt clock op.call = (some r, c₁) ∧
      Served hashToInt x.alive x.map op x.cluster r c₁ ∧
      HeartbeatOnly x.cluster.manager c.manager ∧
      x.cluster.transport.SameNodes c.transport ∧ c.transport.NoTtl ∧
      ∀ n k, c.transport.lookup n k = c₁.landed n k := by
  obtain ⟨r, c₁, hserve, hserved⟩ := h.served hsteady hroom
  rw [hserve] at hrun
  have hdone : ∀ task ∈ c₁.rebalances, task.Done := by
    rw [hserved.rebalances]
    exact h.quiescent.rebalances
  have htargets : ∀ w ∈ c₁.replicaWrites, c₁.transport.Answers w.node.nodeId := by
    intro w hw
    obtain ⟨howner, halive⟩ := List.mem_filter.mp (hserved.replicaTargets w hw).1
    exact hserved.sameNodes.answers_iff.mpr (h.answers _ (h.mem_of_mem_owners howner) halive)
  obtain ⟨hmanager, hsame, hnoTtl, -, hlookup⟩ := DistributedCacheCluster.drained hrun
    hserved.noTtl hdone hserved.replicaWrites htargets hquiescent.replicaWrites
  exact ⟨r, c₁, hserve, hserved, hmanager ▸ hserved.manager, hserved.sameNodes.trans hsame,
    hnoTtl.transport, hlookup⟩

private theorem client (h : x.Mirrors hashToInt ids) {op : ClientOp V} (hsteady : x.Steady clock)
    (hroom : x.cluster.NoEviction hashToInt (.call clock op.call))
    (hrun : Run (WorksWell hashToInt) (x.cluster.serve hashToInt clock op.call).2 background c)
    (hquiescent : c.Quiescent) :
    Mirrors hashToInt ids
      ⟨c, x.down, op.observe (x.cluster.serve hashToInt clock op.call).1 x.map⟩ ∧
    op.observe (x.cluster.serve hashToInt clock op.call).1 x.map = op.run x.map := by
  obtain ⟨r, c₁, hserve, hserved, hheartbeat, hsame, hnoTtl, hlookup⟩ :=
    h.drained hsteady hroom hrun hquiescent
  rw [hserve]
  have hmap : op.observe (some r) x.map = op.run x.map :=
    ClientOp.observe_of_is (hserved.answer (h.liveOwners_ne_nil op.key))
  refine ⟨⟨HeartbeatOnly.reachable hheartbeat h.manager, ?_, hnoTtl, hquiescent, ?_,
    fun nodeId hn halive => ?_, fun key nodeId hn halive => ?_⟩, hmap⟩ <;> dsimp only at *
  · rw [hheartbeat.ring]
    exact h.noCollision
  · rw [hheartbeat.nodes]
    exact h.someAlive
  · rw [hheartbeat.nodes] at hn
    exact hsame.answers_iff.mpr (h.answers nodeId hn halive)
  · rw [hheartbeat.nodes] at hn
    have hlive : nodeId ∈ (x.cluster.manager.liveOwners hashToInt x.alive key).map
        NodeConfig.nodeId ↔ nodeId ∈ x.cluster.manager.ring.ownerIds hashToInt key := by
      constructor
      · rintro hmem
        obtain ⟨node, hnode, rfl⟩ := List.mem_map.mp hmem
        exact List.mem_map_of_mem (List.mem_filter.mp hnode).1
      · rintro hmem
        obtain ⟨node, hnode, rfl⟩ := List.mem_map.mp hmem
        exact List.mem_map_of_mem (List.mem_filter.mpr ⟨hnode, halive⟩)
    rw [hheartbeat.ring, hlookup, hserved.landed, hmap]
    by_cases hkey : key = op.key
    · subst hkey
      rw [ClientOp.run, Function.update_self]
      by_cases howner : nodeId ∈ x.cluster.manager.ring.ownerIds hashToInt op.key
      · rw [if_pos ⟨rfl, hlive.mpr howner⟩, if_pos howner]
      · rw [if_neg fun hcell => howner (hlive.mp hcell.2), if_neg howner,
          h.placed _ nodeId hn halive, if_neg howner]
    · rw [if_neg fun hcell => hkey hcell.1, ClientOp.run, Function.update_of_ne hkey]
      exact h.placed key nodeId hn halive

/-- A topology change leaves a healthy cluster, as the member that is down leaves with it. -/
private theorem rearranged (h : x.Mirrors hashToInt ids) {call : Call V}
    (hcall : x.cluster.Rearranges ids clock call)
    (hdown : ∀ nodeId ∈ x.down, call = .removeNode nodeId) :
    Rearranged hashToInt x.cluster (x.cluster.serve hashToInt clock call).2 := by
  cases hcall with
  | addNode hid hjoins =>
    have hnone : x.down = none := Option.eq_none_iff_forall_not_mem.mpr fun nodeId hmem => by
      cases hdown nodeId hmem
    refine Rearranges.rearranged (.addNode hid hjoins)
      ⟨h.manager, h.noTtl, fun nodeId hn => h.answers nodeId hn ?_, h.quiescent⟩
    rw [alive_of_down_eq_none hnone]
  | @removeNode nodeId hmember hother =>
    have hnoTtl := h.quiescent.noTtl h.noTtl
    refine ⟨?_, ?_, h.quiescent.rebalances, ⟨.remove, ?_⟩, ?_⟩ <;> rw [removeNode_eq hmember]
    · refine ⟨h.manager.coherent.removeNode nodeId, ⟨hnoTtl.transport, hnoTtl.replicaWrites,
        fun task htask => ?_⟩, fun other hn => ?_, fun w hw => ?_, fun task htask other hn => ?_⟩
      · rcases List.mem_append.mp htask with htask | htask
        · exact hnoTtl.rebalances task htask
        · rw [List.mem_singleton.mp htask]
          trivial
      · obtain ⟨hne, hn⟩ := OrderedDict.mem_pop.mp hn
        refine h.answers other hn (alive_iff.mpr fun heq => hne ?_)
        exact (Call.removeNode.inj (hdown other heq)).symm
      · exact absurd (h.quiescent.replicaWrites ▸ hw) List.not_mem_nil
      · rcases List.mem_append.mp htask with htask | htask
        · obtain ⟨ring, hphase⟩ := done_iff.mp (h.quiescent.rebalances task htask)
          rw [hphase] at hn
          cases hn
        · rw [List.mem_singleton.mp htask] at hn
          cases hn
    · exact h.quiescent.replicaWrites
    · rfl
    · rfl

private theorem change (h : x.Mirrors hashToInt ids) {call : Call V}
    (hcall : x.cluster.Rearranges ids clock call)
    (hdown : ∀ nodeId ∈ x.down, call = .removeNode nodeId)
    (hwithout : ∀ key, x.cluster.JoinsWithout clock key call)
    (hrun : Run (WorksWell hashToInt) (x.cluster.serve hashToInt clock call).2 background c)
    (hquiescent : c.Quiescent) : Mirrors hashToInt ids ⟨c, none, x.map⟩ := by
  have hrebalancing := (h.rearranged hcall hdown).rebalancing.runWell hrun
  obtain ⟨member, hmember, -⟩ := h.someAlive
  -- a member of the changed cluster that was one before is not the one that is down
  have hlive : ∀ nodeId ∈ (x.cluster.serve hashToInt clock call).2.manager.nodes,
      nodeId ∈ x.cluster.manager.nodes → x.alive nodeId = true := by
    intro nodeId hn hold
    refine alive_iff.mpr fun heq => ?_
    rw [hdown nodeId heq, removeNode_eq hold] at hn
    exact (OrderedDict.mem_pop.mp hn).1 rfl
  have hcopy : ∀ key, ∀ nodeId ∈ (x.cluster.serve hashToInt clock call).2.manager.nodes,
      (x.cluster.serve hashToInt clock call).2.transport.lookup nodeId key =
        if nodeId ∈ x.cluster.manager.ring.ownerIds hashToInt key then (x.map key).map .plain
        else none := by
    intro key nodeId hn
    by_cases hold : nodeId ∈ x.cluster.manager.nodes
    · rw [hcall.lookup_of_mem hold]
      exact h.placed key nodeId hold (hlive nodeId hn hold)
    · rw [hcall.lookup_of_notMem hn hold (hwithout key), if_neg fun hmem =>
        hold (h.manager.coherent.mem_of_mem_ownerIds hmem)]
  have hkept := fun key => hcall.exists_kept_owner h.manager h.noCollision hmember key
  have hmanager := hcall.reachable h.manager
  have hstays : ∀ {key node}, node ∈ (x.cluster.serve hashToInt clock call).2.manager.ring.owners
      hashToInt key → node.nodeId ∈ (x.cluster.serve hashToInt clock call).2.manager.nodes :=
    fun hnode => hmanager.coherent.mem_of_mem_ownerIds
      (ConsistentHashRing.mem_ownerIds_of_mem hashToInt hnode)
  refine ⟨?_, ?_, hrebalancing.healthy.noTtl.transport, hquiescent, ?_,
    fun nodeId hn _ => hrebalancing.healthy.answers nodeId hn, fun key nodeId hn _ => ?_⟩ <;>
    dsimp only at *
  · rw [hrebalancing.front.manager]
    exact hmanager
  · rw [hrebalancing.ring, hcall.replicas]
    exact h.noCollision
  · rw [hrebalancing.nodes]
    obtain ⟨node, -, hnew⟩ := hkept ""
    exact ⟨node.nodeId, hstays hnew, rfl⟩
  · obtain ⟨node, hold, hnew⟩ := hkept key
    exact hrebalancing.placed hquiescent (fun nodeId hn => Or.inl (hcopy key nodeId hn))
      (fun _ => ⟨node.nodeId, List.mem_map_of_mem hold, hstays hnew⟩)
      (fun _ => List.ne_nil_of_mem hnew) nodeId hn

private theorem heartbeat (h : x.Mirrors hashToInt ids) (clock : Clock) (nodeId : String) :
    Mirrors hashToInt ids
      { x with cluster := (x.cluster.serve hashToInt clock (.heartbeat nodeId)).2 } := by
  obtain ⟨honly, hkeeps, hwrites, hrebalances⟩ :=
    serve_heartbeat hashToInt x.cluster clock nodeId
  refine ⟨HeartbeatOnly.reachable honly h.manager, ?_, h.noTtl.keeps hkeeps, ⟨hwrites.trans
    h.quiescent.replicaWrites, fun task htask => h.quiescent.rebalances task ?_⟩, ?_,
    fun other hn halive => ?_, fun key other hn halive => ?_⟩ <;> dsimp only at *
  · rw [honly.ring]
    exact h.noCollision
  · rwa [hrebalances] at htask
  · rw [honly.nodes]
    exact h.someAlive
  · rw [honly.nodes] at hn
    exact hkeeps.toSameNodes.answers_iff.mpr (h.answers other hn halive)
  · rw [honly.nodes] at hn
    rw [honly.ring, hkeeps.lookup]
    exact h.placed key other hn halive

/-- **Every event keeps the map on the members that are alive.** -/
theorem step (h : x.Mirrors hashToInt ids) {e : OutageEvent V} (hstep : Step hashToInt ids x e x') :
    x'.Mirrors hashToInt ids ∧ x'.map = e.run x.map := by
  cases hstep with
  | client hsteady hroom hrun hquiescent => exact h.client hsteady hroom hrun hquiescent
  | change hcall hdown hwithout hrun hquiescent =>
    exact ⟨h.change hcall hdown hwithout hrun hquiescent, rfl⟩
  | heartbeat clock nodeId => exact ⟨h.heartbeat clock nodeId, rfl⟩
  | @crash nodeId hdown hother =>
    have hthen := alive_of_down_eq_none hdown
    have hnow : ∀ other, other ≠ nodeId → x.alive other = true := fun other _ => by rw [hthen]
    obtain ⟨other, hmember, hne⟩ := hother
    refine ⟨⟨h.manager, h.noCollision, h.noTtl, ⟨h.quiescent.replicaWrites,
      h.quiescent.rebalances⟩, ⟨other, hmember, alive_iff.mpr fun heq => ?_⟩,
      fun other hn halive => ?_, fun key other hn halive => ?_⟩, rfl⟩
    · exact hne (Option.some.inj heq).symm
    · have hne : other ≠ nodeId := fun heq => alive_iff.mp halive (by rw [heq])
      exact (NodeTransport.answers_crash_of_ne hne).mpr (h.answers other hn (hnow other hne))
    · have hne : other ≠ nodeId := fun heq => alive_iff.mp halive (by rw [heq])
      exact h.placed key other hn (hnow other hne)
  | @restart nodeId runtime hnew hempty =>
    have hne : ∀ other ∈ x.cluster.manager.nodes, other ≠ nodeId := fun other hn heq =>
      hnew (heq ▸ hn)
    refine ⟨⟨h.manager, h.noCollision, h.noTtl.restart nodeId hempty, ⟨h.quiescent.replicaWrites,
      h.quiescent.rebalances⟩, h.someAlive, fun other hn halive => ?_,
      fun key other hn halive => ?_⟩, rfl⟩
    · exact (NodeTransport.answers_restart_of_ne (hne other hn)).mpr (h.answers other hn halive)
    · exact (NodeTransport.lookup_restart_of_ne (hne other hn) key).trans
        (h.placed key other hn halive)

/-- A history. -/
theorem run (h : x.Mirrors hashToInt ids) {events : List (OutageEvent V)}
    (hrun : Run (Step hashToInt ids) x events x') :
    x'.Mirrors hashToInt ids ∧ x'.map = events.foldl OutageEvent.run x.map := by
  induction hrun with
  | nil x => exact ⟨h, rfl⟩
  | cons hstep _ ih =>
    obtain ⟨hnext, hmap⟩ := h.step hstep
    obtain ⟨hend, hfold⟩ := ih hnext
    exact ⟨hend, by rw [hfold, hmap, List.foldl_cons]⟩

end Mirrors

def sampleOutage : Outage ℕ :=
  ⟨sampleHolding ["a", "b"] [], none, fun _ => none⟩

theorem sampleOutage_start : sampleOutage.Start sampleHash {"m", "n", "a", "b", "c"} := by
  refine ⟨sampleHolding_atRest _ _ (by simp), sampleHash_noCollision, ⟨"a", by decide +kernel⟩,
    fun nodeId _ key => ?_, rfl, rfl⟩
  change (sampleHolding ["a", "b"] []).transport.lookup nodeId key = none
  rw [sampleHolding_lookup, if_neg fun h => List.not_mem_nil h.1]

/-- Node `"b"` sent a heartbeat. -/
def sampleBeat (c : DistributedCacheCluster ℕ) : DistributedCacheCluster ℕ :=
  (c.serve sampleHash (fun _ => 9) (.heartbeat "b")).2

def sampleCrashed (c : DistributedCacheCluster ℕ) : DistributedCacheCluster ℕ :=
  { sampleBeat c with transport := (sampleBeat c).transport.crash "a" }

def sampleWritten (c : DistributedCacheCluster ℕ) : DistributedCacheCluster ℕ :=
  ((sampleCrashed c).serve sampleHash (fun _ => 10) (.put "k" (some 2) none)).2

/-- A key is put, and put again while its primary is down. -/
private theorem exists_sample_run (p : DistributedCacheCluster ℕ → Bool)
    (h : ((sampleOutage.cluster.serve sampleHash (fun _ => 0) (.put "k" (some 1) none)).2.runAll
        sampleHash [.replicate 0 (fun _ => 0) .carriedOut]).any (fun c =>
      decide (c.Quiescent ∧ (sampleCrashed c).manager.nodes.keys = ["a", "b"] ∧
        (∀ nodeId ∈ ["a", "b"],
          (sampleCrashed c).manager.isAlive 10 nodeId = decide (nodeId = "b")) ∧
        (sampleCrashed c).NoEviction sampleHash (.call (fun _ => 10) (.put "k" (some 2) none)) ∧
        (sampleWritten c).Quiescent ∧ p (sampleWritten c) = true)) = true) :
    ∃ x y, Run (Step sampleHash {"m", "n", "a", "b", "c"}) sampleOutage
        [.client (fun _ => 0) (.put "k" 1) [.replicate 0 (fun _ => 0) .carriedOut],
          .heartbeat (fun _ => 9) "b"] x ∧
      Run (Step sampleHash {"m", "n", "a", "b", "c"}) x
        [.crash "a", .client (fun _ => 10) (.put "k" 2) []] y ∧
      "a" ∈ x.cluster.manager.nodes ∧ y.down = some "a" ∧ p y.cluster = true := by
  obtain ⟨c, hput, hc⟩ := exists_run sampleHash _ _ _ h
  obtain ⟨hquiescent, hnodes, halive, hroom, hquiescent', hp⟩ := of_decide_eq_true hc
  have hsteady : sampleOutage.Steady fun _ => 0 := by
    have hmembers : ∀ nodeId ∈ sampleOutage.cluster.manager.nodes.keys,
        sampleOutage.cluster.manager.isAlive 0 nodeId = true := by decide +kernel
    exact fun nodeId hn _ => hmembers nodeId hn
  let m := (ClientOp.put "k" 1).observe
    (sampleOutage.cluster.serve sampleHash (fun _ => 0) (.put "k" (some 1) none)).1
    sampleOutage.map
  let m' := (ClientOp.put "k" 2).observe
    ((sampleCrashed c).serve sampleHash (fun _ => 10) (.put "k" (some 2) none)).1 m
  let down : Outage ℕ := ⟨sampleCrashed c, some "a", m⟩
  have hsteady' : down.Steady fun _ => 10 := by
    intro nodeId hn i
    have hmem : nodeId ∈ ["a", "b"] := by
      rw [← hnodes]
      exact hn
    refine (halive nodeId hmem).trans ?_
    rcases List.mem_pair.mp hmem with rfl | rfl <;> rfl
  have hmembers : ∀ nodeId ∈ ["a", "b"], nodeId ∈ (sampleBeat c).manager.nodes := by
    intro nodeId hn
    rw [← hnodes] at hn
    exact hn
  have hfirst : Step sampleHash {"m", "n", "a", "b", "c"} sampleOutage
      (.client (fun _ => 0) (.put "k" 1) [.replicate 0 (fun _ => 0) .carriedOut]) ⟨c, none, m⟩ :=
    .client hsteady (by decide +kernel) hput hquiescent
  have hcrash : Step sampleHash {"m", "n", "a", "b", "c"} ⟨sampleBeat c, none, m⟩ (.crash "a")
      down := .crash rfl ⟨"b", hmembers "b" (by decide), by decide⟩
  have hsecond : Step sampleHash {"m", "n", "a", "b", "c"} down
      (.client (fun _ => 10) (.put "k" 2) []) ⟨sampleWritten c, some "a", m'⟩ :=
    .client hsteady' hroom (.nil _) hquiescent'
  exact ⟨_, _, .cons hfirst (.single (.heartbeat (fun _ => 9) "b")),
    .cons hcrash (.single hsecond), hmembers "a" (by decide), rfl, hp⟩

/-- Calls to the member get through again, to the store that it had. -/
def reached (x : Outage V) (nodeId : String) : DistributedCacheCluster V :=
  { x.cluster with
    transport := { x.cluster.transport with
      reachable := Function.update x.cluster.transport.reachable nodeId true } }

/-- The member is back: calls get through, and a heartbeat arrived. -/
def recovered (hashToInt : String → ℕ) (x : Outage V) (beat : Clock) (nodeId : String) :
    DistributedCacheCluster V :=
  ((x.reached nodeId).serve hashToInt beat (.heartbeat nodeId)).2

/-- What the members say about a key when the member is back: its first owner with a value, where
the member has the value of the map `before`. -/
def valueSeen (hashToInt : String → ℕ) (x : Outage V) (nodeId : String) (before : KeyValueMap V)
    (key : String) : Option V :=
  (x.cluster.manager.ring.owners hashToInt key).findSome? fun node =>
    if node.nodeId = nodeId then before key else x.map key

/-- From `x` to `y` the member was down, and its store stayed as it was. -/
structure LeftAlone (nodeId : String) (x y : Outage V) : Prop where
  down : y.down = some nodeId
  nodes : y.cluster.manager.nodes = x.cluster.manager.nodes
  ring : y.cluster.manager.ring = x.cluster.manager.ring
  capacity : y.cluster.transport.capacity nodeId = x.cluster.transport.capacity nodeId
  lookup : ∀ key, y.cluster.transport.lookup nodeId key = x.cluster.transport.lookup nodeId key

variable {y : Outage V} {nodeId : String}

/-- No client call reaches the member that is down. -/
theorem LeftAlone.step (h : LeftAlone nodeId x y) (hy : y.Mirrors hashToInt ids)
    {e : OutageEvent V} (he : e.Serves) {y' : Outage V} (hstep : Step hashToInt ids y e y') :
    LeftAlone nodeId x y' := by
  cases hstep with
  | @client clock op background c hsteady hroom hrun hquiescent =>
    obtain ⟨r, c₁, -, hserved, hheartbeat, hsame, -, hlookup⟩ :=
      hy.drained hsteady hroom hrun hquiescent
    refine ⟨h.down, hheartbeat.nodes.trans h.nodes, hheartbeat.ring.trans h.ring,
      (hsame.capacity nodeId).trans h.capacity, fun key => ?_⟩
    refine ((hlookup nodeId key).trans ((hserved.landed nodeId key).trans (if_neg ?_))).trans
      (h.lookup key)
    rintro ⟨-, hmem⟩
    obtain ⟨node, hnode, rfl⟩ := List.mem_map.mp hmem
    exact alive_iff.mp (List.mem_filter.mp hnode).2 h.down
  | heartbeat clock other =>
    obtain ⟨honly, hkeeps, -, -⟩ := serve_heartbeat hashToInt y.cluster clock other
    exact ⟨h.down, honly.nodes.trans h.nodes, honly.ring.trans h.ring,
      (hkeeps.toSameNodes.capacity nodeId).trans h.capacity,
      fun key => (hkeeps.lookup nodeId key).trans (h.lookup key)⟩
  | change hcall hdown hwithout hrun hquiescent => exact he.elim
  | crash hdown hother => exact he.elim
  | restart hnew hempty => exact he.elim

theorem LeftAlone.run (h : LeftAlone nodeId x y) (hy : y.Mirrors hashToInt ids)
    {events : List (OutageEvent V)} (hevents : ∀ e ∈ events, e.Serves) {y' : Outage V}
    (hrun : Run (Step hashToInt ids) y events y') :
    LeftAlone nodeId x y' ∧ y'.Mirrors hashToInt ids := by
  induction hrun with
  | nil y => exact ⟨h, hy⟩
  | cons hstep _ ih =>
    exact ih (h.step hy (hevents _ List.mem_cons_self) hstep) (hy.step hstep).1
      fun e he => hevents e (List.mem_cons_of_mem _ he)

theorem LeftAlone.alive_of_ne (h : LeftAlone nodeId x y) {other : String} (hne : other ≠ nodeId) :
    y.alive other = true :=
  alive_iff.mpr fun heq => hne (Option.some.inj (h.down.symm.trans heq)).symm

/-- When the member is back all owners of a key answer. -/
private theorem LeftAlone.answers (h : LeftAlone nodeId x y) (hy : y.Mirrors hashToInt ids)
    (hanswers : x.cluster.transport.Answers nodeId) {key : String} {node : NodeConfig}
    (hnode : node ∈ y.cluster.manager.ring.owners hashToInt key) :
    (y.reached nodeId).transport.Answers node.nodeId := by
  rw [NodeTransport.answers_iff]
  by_cases hn : node.nodeId = nodeId
  · refine ⟨(congrArg _ hn).trans (Function.update_self _ _ _), ?_⟩
    have hruns : (x.cluster.transport.capacity nodeId).isSome :=
      NodeTransport.isSome_capacity.mpr (NodeTransport.answers_iff.mp hanswers).2
    rw [← h.capacity, ← hn] at hruns
    exact NodeTransport.isSome_capacity.mp hruns
  · obtain ⟨hreach, hruns⟩ := NodeTransport.answers_iff.mp
      (hy.answers node.nodeId (hy.mem_of_mem_owners hnode) (h.alive_of_ne hn))
    exact ⟨(Function.update_of_ne hn _ _).trans hreach, hruns⟩

/-- What the owners of a key hold when the member is back. -/
private theorem LeftAlone.lookup_owner (h : LeftAlone nodeId x y) (hx : x.Mirrors hashToInt ids)
    (hy : y.Mirrors hashToInt ids) (halive : x.alive nodeId = true) {key : String}
    {node : NodeConfig} (hnode : node ∈ y.cluster.manager.ring.owners hashToInt key) :
    y.cluster.transport.lookup node.nodeId key =
      (if node.nodeId = nodeId then x.map key else y.map key).map .plain := by
  have howner := ConsistentHashRing.mem_ownerIds_of_mem hashToInt hnode
  have hmember := hy.mem_of_mem_owners hnode
  by_cases hn : node.nodeId = nodeId
  · rw [if_pos hn]
    rw [hn] at howner hmember ⊢
    rw [h.lookup, hx.placed key nodeId (h.nodes ▸ hmember) halive, ← h.ring, if_pos howner]
  · rw [if_neg hn, hy.placed key _ hmember (h.alive_of_ne hn), if_pos howner]

/-- **A member that comes back brings its old values back.** A member crashes and is not removed;
clients go on, and the member is back with its store. Then a get reads the owners of its key in
order, and the member answers with the values of the time of its crash: what was put or deleted
meanwhile is hidden by its old value where it is the primary, and what was deleted meanwhile is
back where it is the replica. -/
theorem recovered_member_is_stale {start : Outage V} {before events : List (OutageEvent V)}
    (hstart : start.Start hashToInt ids) (hbefore : Run (Step hashToInt ids) start before x)
    (hmember : nodeId ∈ x.cluster.manager.nodes) (hevents : ∀ e ∈ events, e.Serves)
    (hrun : Run (Step hashToInt ids) x (.crash nodeId :: events) y) {beat : Clock}
    (halive : (y.recovered hashToInt beat nodeId).AllAlive clock) (key : String) :
    ∃ r, ((y.recovered hashToInt beat nodeId).get hashToInt clock key).1 = some r ∧
      r.Is ((y.valueSeen hashToInt nodeId x.map key).elim .missing .found) := by
  obtain ⟨h, -⟩ := hstart.mirrors.run hbefore
  obtain ⟨hnow, hleft, hy⟩ : x.alive nodeId = true ∧ LeftAlone nodeId x y ∧
      y.Mirrors hashToInt ids := by
    cases hrun with
    | cons hcrash hrest =>
      obtain ⟨h₁, -⟩ := h.step hcrash
      cases hcrash with
      | crash hdown hother =>
        have hfirst : LeftAlone nodeId x
            ⟨{ x.cluster with transport := x.cluster.transport.crash nodeId }, some nodeId,
              x.map⟩ := ⟨rfl, rfl, rfl, rfl, fun _ => rfl⟩
        exact ⟨by rw [alive_of_down_eq_none hdown], hfirst.run h₁ hevents hrest⟩
  obtain ⟨honly, hkeeps, -, -⟩ := serve_heartbeat hashToInt (y.reached nodeId) beat nodeId
  have howners : (y.recovered hashToInt beat nodeId).manager.ring.owners hashToInt key =
      y.cluster.manager.ring.owners hashToInt key := by
    rw [recovered, honly.ring]
    rfl
  have hlive := (liveOwners_true hashToInt (y.recovered hashToInt beat nodeId).manager key).trans
    howners
  have hcopy : ((y.recovered hashToInt beat nodeId).liveCopy hashToInt (fun _ => true) key).map
      Prod.snd = y.valueSeen hashToInt nodeId x.map key := by
    rw [liveCopy, hlive, List.map_findSome?]
    refine ConsistentHashRing.findSome?_congr fun node hnode => ?_
    have hlookup := (hkeeps.lookup node.nodeId key).trans (hleft.lookup_owner h hy hnow hnode)
    rw [Function.comp_apply, recovered, hlookup]
    cases (if node.nodeId = nodeId then x.map key else y.map key) <;> rfl
  have hsteady : (y.recovered hashToInt beat nodeId).manager.Steady hashToInt clock
      (fun _ => true) key := fun node hnode => by
    refine halive node.nodeId ?_
    rw [recovered, honly.nodes]
    exact hy.mem_of_mem_owners (howners ▸ hnode)
  obtain ⟨target, rest, hsplit⟩ : ∃ target rest,
      y.cluster.manager.ring.owners hashToInt key = target :: rest := by
    obtain ⟨node, hnode⟩ := List.exists_mem_of_ne_nil _ (hy.liveOwners_ne_nil key)
    exact List.exists_cons_of_ne_nil (List.ne_nil_of_mem (List.mem_of_mem_filter hnode))
  have hanswers : ∀ node ∈ target :: rest,
      (y.recovered hashToInt beat nodeId).transport.Answers node.nodeId := fun node hnode =>
    hkeeps.toSameNodes.answers_iff.mpr
      (hleft.answers hy (h.answers nodeId hmember hnow) (hsplit ▸ hnode))
  have hnoTtl : (y.reached nodeId).transport.NoTtl := hy.noTtl
  obtain ⟨manager, transport, hget, -, -⟩ := get_eq hsteady (hlive.trans hsplit) hanswers
    (hnoTtl.keeps hkeeps)
  refine ⟨_, by rw [hget], ?_⟩
  rw [← hcopy]
  cases (y.recovered hashToInt beat nodeId).liveCopy hashToInt (fun _ => true) key with
  | none => exact ⟨rfl, rfl⟩
  | some copy => exact ⟨rfl, rfl, rfl⟩

/-- `recovered_member_is_stale` where a key is put again while its primary is down: the old value
is back. -/
theorem recovered_member_is_stale_primary :
    ∃ x y, Run (Step sampleHash {"m", "n", "a", "b", "c"}) sampleOutage
        [.client (fun _ => 0) (.put "k" 1) [.replicate 0 (fun _ => 0) .carriedOut],
          .heartbeat (fun _ => 9) "b"] x ∧
      Run (Step sampleHash {"m", "n", "a", "b", "c"}) x
        [.crash "a", .client (fun _ => 10) (.put "k" 2) []] y ∧ y.map "k" = some 2 ∧
      ∃ r, ((y.recovered sampleHash (fun _ => 11) "a").get sampleHash (fun _ => 12) "k").1 =
        some r ∧ r.Is (.found 1) := by
  obtain ⟨x, y, hbefore, hrun, hmember, -, hp⟩ := exists_sample_run (fun c =>
    decide (c.manager.ring.ownerIds sampleHash "k" = ["a", "b"] ∧
      ∀ nodeId ∈ ((Outage.mk c none fun _ => none).recovered sampleHash (fun _ => 11)
          "a").manager.nodes.keys,
        ((Outage.mk c none fun _ => none).recovered sampleHash (fun _ => 11) "a").manager.isAlive 12
          nodeId = true)) (by decide +kernel)
  obtain ⟨howners, halive⟩ := of_decide_eq_true hp
  obtain ⟨h, hmap⟩ := sampleOutage_start.mirrors.run hbefore
  obtain ⟨-, hmap'⟩ := h.run hrun
  obtain ⟨r, hr, his⟩ := recovered_member_is_stale sampleOutage_start hbefore hmember
    (by simp [OutageEvent.Serves]) hrun (fun nodeId hn _ => halive nodeId hn) "k"
  have hseen : y.valueSeen sampleHash "a" x.map "k" = some 1 := by
    obtain ⟨node, rest, hsplit, hnode, -⟩ := List.map_eq_cons_iff.mp howners
    rw [valueSeen, hsplit, List.findSome?_cons, if_pos hnode, hmap]
    rfl
  refine ⟨x, y, hbefore, hrun, ?_, r, hr, ?_⟩
  · rw [hmap', hmap]
    rfl
  · rw [hseen] at his
    exact his

end Outage

end DistributedCache
