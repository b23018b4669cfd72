import DistributedCache.Cluster.Topology

/-!
# Sequential histories

Clients and operators call the gateway one after another: all members stay alive, no call to a
node fails, and all background work of a call has ended before the next call. Then the owners of
a key hold what a plain map of the calls has for it, and no other member holds the key, across
topology changes.

## Main definitions

* `Observed.Sequential` : the steps of a sequential history.
* `Observed.Mirrors` : a key is placed on its owners with the value of the map.
* `Observed.ReturnsCurrent` : what a topology change must not bring back or take away.
* `Observed.UsesKeys` : a history that stays within the capacity of the nodes.

## Main results

* `Observed.Mirrors.step` : a step of a history keeps a key placed.
* `Observed.IsMap.step` : a step of a history within the capacity keeps all keys placed.
* `Observed.cluster_is_map` : a history on empty stores makes the cluster a map.
-/

namespace DistributedCache

open Library Library.Relocation

variable {V : Type*} {hashToInt : String → ℕ} {ids : Set String} {key : String}

/-- A call of a client or a topology change, with the background steps up to the next call. -/
inductive HistoryEvent (V : Type*)
  | client (clock : Clock) (op : ClientOp V) (background : List BackgroundStep)
  | change (clock : Clock) (call : Call V) (background : List BackgroundStep)

/-- The map after the event. -/
def HistoryEvent.run (m : KeyValueMap V) : HistoryEvent V → KeyValueMap V
  | .client _ op _ => op.run m
  | .change _ _ _ => m

theorem HeartbeatOnly.reachable {m m' : ClusterManager}
    (h : DistributedCacheCluster.HeartbeatOnly m m') (hm : m.Reachable hashToInt ids) :
    m'.Reachable hashToInt ids := by
  rcases h with rfl | ⟨now, nodeId, rfl⟩
  · exact hm
  · exact .recordHeartbeat now nodeId hm

namespace DistributedCacheCluster

variable {c c₁ c' : DistributedCacheCluster V} {op : ClientOp V} {r : Response V}

/-- A call about another key submits nothing for the key. -/
theorem ServedAlive.landed_of_ne (h : ServedAlive hashToInt c op r c₁)
    (hidle : c.replicaWrites = []) (hk : key ≠ op.key) (n : String) :
    c₁.landed n key = c.transport.lookup n key := by
  obtain ⟨ws, hws, hmem⟩ := h.exists_replicaWrites
  have hnone : c₁.replicaWrites.find? (fun w => w.node.nodeId = n ∧ w.key = key) = none := by
    rw [List.find?_eq_none]
    intro w hw
    rw [hws, hidle, List.nil_append] at hw
    simp [(hmem w hw).1, Ne.symm hk]
  rw [landed, hnone]
  exact h.lookup_of_ne hk n

theorem isSome_landed {n k : String} (h : (c.transport.lookup n k).isSome) :
    (c.landed n k).isSome := by
  rw [landed]
  split
  · rfl
  · exact h

/-- A client call on a cluster at rest, and the background steps until all replica writes have
landed. -/
theorem AtRest.drained (hrest : c.AtRest hashToInt ids) (hserved : ServedAlive hashToInt c op r c₁)
    {background : List BackgroundStep} (hrun : Run (WorksWell hashToInt) c₁ background c')
    (hquiescent : c'.Quiescent) :
    c'.AtRest hashToInt ids ∧ HeartbeatOnly c.manager c'.manager ∧
      c.transport.SameNodes c'.transport ∧
      ∀ n k, c'.transport.lookup n k = c₁.landed n k := by
  have hhealthy := hserved.healthy hrest.healthy
  have hdone : ∀ task ∈ c₁.rebalances, task.Done := by
    rw [hserved.rebalances]
    exact hrest.quiescent.rebalances
  have hone : c₁.replicaWrites.length ≤ 1 := by
    have hlength := hserved.length_replicaWrites
    rwa [hrest.quiescent.replicaWrites] at hlength
  obtain ⟨hmanager, hsame, hnoTtl, -, hlookup⟩ := DistributedCacheCluster.drained hrun
    hhealthy.noTtl hdone hone (fun w hw => hhealthy.answers _ (hhealthy.replicaTargets w hw))
    hquiescent.replicaWrites
  refine ⟨⟨?_, hnoTtl.transport, fun nodeId hn => ?_, hquiescent⟩, hmanager ▸ hserved.manager,
    (hserved.transport hrest.noTtl).1.trans hsame, hlookup⟩
  · rw [hmanager]
    exact HeartbeatOnly.reachable hserved.manager hrest.manager
  · rw [hmanager] at hn
    exact hsame.answers_iff.mpr (hhealthy.answers nodeId hn)

/-- The background loop evicts nothing when there is room for all puts that are submitted or
scheduled. -/
theorem noEviction_background (s : BackgroundStep)
    (hreplicate : ∀ w ∈ c.replicaWrites, c.transport.HasRoom w.node.nodeId w.key)
    (hmigrate : ∀ task ∈ c.rebalances, ∀ ring pending, task.phase = .migrating ring pending →
      ∀ node k value ttlSeconds, .put node k value ttlSeconds ∈ pending →
        c.transport.HasRoom node.nodeId k) : c.NoEviction hashToInt (.background s) := by
  intro cell hcell
  cases s with
  | replicate index clock outcome =>
    cases outcome with
    | carriedOut =>
      obtain ⟨w, hw, rfl⟩ := Option.map_eq_some_iff.mp hcell
      exact hreplicate w (List.mem_of_getElem? hw)
    | refused => cases hcell
    | raised => cases hcell
  | migrate index i clock outcome =>
    cases outcome with
    | carriedOut =>
      obtain ⟨call, hcall, hput⟩ := Option.bind_eq_some_iff.mp hcell
      obtain ⟨task, htask, hpending⟩ := Option.bind_eq_some_iff.mp hcall
      split at hpending
      · rename_i ring pending hphase
        cases call with
        | put node k value ttlSeconds =>
          obtain rfl := Option.some.inj hput
          exact hmigrate task (List.mem_of_getElem? htask) ring pending hphase node k value
            ttlSeconds (List.mem_of_getElem? hpending)
        | delete node k => cases hput
      · cases hpending
    | refused => cases hcell
    | raised => cases hcell
  | begin index => cases hcell
  | snapshot index now outcome => cases hcell
  | plan index now clock => cases hcell
  | cleanup nodeId now => cases hcell

end DistributedCacheCluster

namespace Observed

open DistributedCacheCluster

/-- The steps of a sequential history: a client call or a topology change, and the background
steps until nothing is left to do. No call to a node fails, and all events are allowed. The map
is that of the acknowledged calls. -/
inductive Sequential (hashToInt : String → ℕ) (ids : Set String)
    (Allowed : Observed V → Event V → Prop) : Observed V → HistoryEvent V → Observed V → Prop
  | client {x : Observed V} {clock : Clock} {op : ClientOp V} {background : List BackgroundStep}
      {m : KeyValueMap V} {c : DistributedCacheCluster V} (halive : x.cluster.AllAlive clock)
      (hallowed : Allowed x (.call clock op.call))
      (hmap : m = op.observe (x.cluster.serve hashToInt clock op.call).1 x.map)
      (hrun : Run (fun d s d' => s.Succeeds ∧ Allowed ⟨d, m⟩ (.background s) ∧
          d.runBackground hashToInt s = some d')
        (x.cluster.serve hashToInt clock op.call).2 background c)
      (hquiescent : c.Quiescent) :
      Sequential hashToInt ids Allowed x (.client clock op background) ⟨c, m⟩
  | change {x : Observed V} {clock : Clock} {call : Call V} {background : List BackgroundStep}
      {c : DistributedCacheCluster V} (hcall : x.cluster.Rearranges ids clock call)
      (hallowed : Allowed x (.call clock call))
      (hrun : Run (fun d s d' => s.Succeeds ∧ Allowed ⟨d, x.map⟩ (.background s) ∧
          d.runBackground hashToInt s = some d')
        (x.cluster.serve hashToInt clock call).2 background c)
      (hquiescent : c.Quiescent) :
      Sequential hashToInt ids Allowed x (.change clock call background) ⟨c, x.map⟩

/-- The event evicts nothing. A node that joins has nothing stored for the key, or becomes an
owner of it and has its value; a member that leaves is not the only owner of the key. -/
def ReturnsCurrent (hashToInt : String → ℕ) (key : String) (x : Observed V) (e : Event V) : Prop :=
  x.cluster.NoEviction hashToInt e ∧
    match e with
    | .call clock (.addNode node runtime) =>
      x.cluster.JoinsWithout clock key (.addNode node runtime) ∨
        node.nodeId ∈ (x.cluster.manager.ring.addNode hashToInt node).ownerIds hashToInt key ∧
          (x.cluster.transport.registerNode (clock 0) node runtime).lookup node.nodeId key =
            (x.map key).map .plain
    | .call _ (.removeNode nodeId) =>
      x.map key ≠ none → ∃ owner ∈ x.cluster.manager.ring.ownerIds hashToInt key, owner ≠ nodeId
    | _ => True

/-- The cluster is at rest, and the key is placed on its owners with the value of the map. -/
structure Mirrors (hashToInt : String → ℕ) (ids : Set String) (key : String) (x : Observed V) :
    Prop where
  rest : x.cluster.AtRest hashToInt ids
  placed : x.cluster.Placed hashToInt key ((x.map key).map .plain)
  owned : x.map key ≠ none → x.cluster.manager.ring.owners hashToInt key ≠ []

variable {x x' : Observed V} {clock : Clock} {background : List BackgroundStep}
  {c : DistributedCacheCluster V}

theorem Mirrors.lookup_owner (h : x.Mirrors hashToInt ids key) :
    ∀ node ∈ x.cluster.manager.ring.owners hashToInt key,
      x.cluster.transport.lookup node.nodeId key = (x.map key).map .plain := by
  intro node hnode
  rw [h.placed _ (h.rest.healthy.mem_of_mem_owners hnode),
    if_pos (ConsistentHashRing.mem_ownerIds_of_mem hashToInt hnode)]

/-- What a call about the key does when the key is placed. -/
theorem Mirrors.exists_served {op : ClientOp V} (h : x.Mirrors hashToInt ids op.key)
    (halive : x.cluster.AllAlive clock)
    (hroom : x.cluster.NoEviction hashToInt (.call clock op.call)) :
    ∃ r c₁, x.cluster.serve hashToInt clock op.call = (some r, c₁) ∧
      ServedAlive hashToInt x.cluster op r c₁ ∧
      Served hashToInt (fun _ => true) x.map op x.cluster r c₁ := by
  have hlive := liveOwners_true hashToInt x.cluster.manager op.key
  obtain ⟨r, c₁, hserve, hbounds⟩ := servedAlive h.rest.healthy halive op hroom
  obtain ⟨r', c₁', hserve', hserved⟩ : ∃ r c₁,
      x.cluster.serve hashToInt clock op.call = (some r, c₁) ∧
        Served hashToInt (fun _ => true) x.map op x.cluster r c₁ := by
    refine served op h.rest.healthy.noTtl h.rest.quiescent.replicaWrites
      (h.rest.healthy.steady halive op.key) (fun node hnode => ?_) hroom fun node hnode => ?_
    · rw [hlive] at hnode
      exact h.rest.answers _ (h.rest.healthy.mem_of_mem_owners hnode)
    · rw [hlive] at hnode
      exact h.lookup_owner node hnode
  obtain ⟨hr, rfl⟩ := Prod.mk.inj (hserve.symm.trans hserve')
  obtain rfl := Option.some.inj hr
  exact ⟨r, c₁, hserve, hbounds, hserved⟩

/-- A client call keeps a key placed. -/
theorem Mirrors.client (h : x.Mirrors hashToInt ids key) {op : ClientOp V}
    (halive : x.cluster.AllAlive clock)
    (hroom : x.cluster.NoEviction hashToInt (.call clock op.call))
    (hrun : Run (WorksWell hashToInt) (x.cluster.serve hashToInt clock op.call).2 background c)
    (hquiescent : c.Quiescent) : Mirrors hashToInt ids key
      ⟨c, op.observe (x.cluster.serve hashToInt clock op.call).1 x.map⟩ := by
  by_cases hkey : key = op.key
  · subst hkey
    obtain ⟨r, c₁, hserve, hserved, hserved'⟩ := h.exists_served halive hroom
    rw [hserve] at hrun ⊢
    obtain ⟨hrest, hmanager, -, hlookup⟩ := h.rest.drained hserved hrun hquiescent
    have hlive := liveOwners_true hashToInt x.cluster.manager op.key
    refine ⟨hrest, fun nodeId hn => ?_, fun hsome => ?_⟩ <;> dsimp only at *
    · rw [hmanager.nodes] at hn
      rw [hmanager.ring, hlookup, hserved'.landed, hlive]
      by_cases howner : nodeId ∈ x.cluster.manager.ring.ownerIds hashToInt op.key
      · have hne : x.cluster.manager.liveOwners hashToInt (fun _ => true) op.key ≠ [] := by
          rw [hlive]
          exact fun hnil => List.ne_nil_of_mem howner (by rw [ConsistentHashRing.ownerIds, hnil]; rfl)
        rw [if_pos ⟨rfl, howner⟩, if_pos howner, ClientOp.observe_of_is (hserved'.answer hne),
          ClientOp.run, Function.update_self]
      · rw [if_neg fun hcell => howner hcell.2, if_neg howner, h.placed nodeId hn, if_neg howner]
    · rw [hmanager.ring]
      intro hnil
      rw [ClientOp.observe_of_unavailable (hserved'.unavailable (hlive.trans hnil))] at hsome
      exact h.owned hsome hnil
  · obtain ⟨r, c₁, hserve, hserved⟩ := servedAlive h.rest.healthy halive op hroom
    rw [hserve] at hrun ⊢
    obtain ⟨hrest, hmanager, -, hlookup⟩ := h.rest.drained hserved hrun hquiescent
    refine ⟨hrest, fun nodeId hn => ?_, ?_⟩ <;> dsimp only at *
    · rw [hmanager.nodes] at hn
      rw [hmanager.ring, hlookup, hserved.landed_of_ne h.rest.quiescent.replicaWrites hkey,
        ClientOp.observe_of_ne hkey]
      exact h.placed nodeId hn
    · rw [hmanager.ring, ClientOp.observe_of_ne hkey]
      exact h.owned

/-- A topology change that brings nothing outdated, and leaves an owner, keeps a key placed. -/
theorem Mirrors.change (h : x.Mirrors hashToInt ids key) {call : Call V}
    (hcall : x.cluster.Rearranges ids clock call)
    (hreturns : x.ReturnsCurrent hashToInt key (.call clock call))
    (hrun : Run (WorksWell hashToInt) (x.cluster.serve hashToInt clock call).2 background c)
    (hquiescent : c.Quiescent) : Mirrors hashToInt ids key ⟨c, x.map⟩ := by
  have hrebalancing := (hcall.rearranged h.rest).rebalancing.runWell hrun
  have hcopy : ∀ nodeId ∈ (x.cluster.serve hashToInt clock call).2.manager.nodes,
      (x.cluster.serve hashToInt clock call).2.transport.lookup nodeId key =
        (if nodeId ∈ x.cluster.manager.ring.ownerIds hashToInt key then (x.map key).map .plain
          else none) ∨
      nodeId ∈ (x.cluster.serve hashToInt clock call).2.manager.ring.ownerIds hashToInt key ∧
        (x.cluster.serve hashToInt clock call).2.transport.lookup nodeId key =
          (x.map key).map .plain := by
    intro nodeId hn
    by_cases hold : nodeId ∈ x.cluster.manager.nodes
    · rw [hcall.lookup_of_mem hold]
      exact Or.inl (h.placed nodeId hold)
    · have hnot : nodeId ∉ x.cluster.manager.ring.ownerIds hashToInt key := fun hmem =>
        hold (h.rest.manager.coherent.mem_of_mem_ownerIds hmem)
      rw [if_neg hnot]
      cases hcall with
      | addNode hid hjoins =>
        rw [addNode_eq hjoins.new] at hn ⊢
        obtain rfl := (OrderedDict.mem_set.mp hn).resolve_right hold
        exact hreturns.2
      | removeNode hmember hother =>
        rw [removeNode_eq hmember] at hn
        exact absurd (OrderedDict.mem_pop.mp hn).2 hold
  have hkept : x.map key ≠ none → ∃ nodeId ∈ x.cluster.manager.ring.ownerIds hashToInt key,
      nodeId ∈ (x.cluster.serve hashToInt clock call).2.manager.nodes := by
    intro hsome
    cases hcall with
    | addNode hid hjoins =>
      obtain ⟨node, hnode⟩ := List.exists_mem_of_ne_nil _ (h.owned hsome)
      rw [addNode_eq hjoins.new]
      exact ⟨node.nodeId, List.mem_map_of_mem hnode,
        OrderedDict.mem_set.mpr (Or.inr (h.rest.healthy.mem_of_mem_owners hnode))⟩
    | removeNode hmember hother =>
      obtain ⟨owner, howner, hne⟩ := hreturns.2 hsome
      rw [removeNode_eq hmember]
      exact ⟨owner, howner, OrderedDict.mem_pop.mpr
        ⟨hne, h.rest.manager.coherent.mem_of_mem_ownerIds howner⟩⟩
  have howned : x.map key ≠ none →
      (x.cluster.serve hashToInt clock call).2.manager.ring.owners hashToInt key ≠ [] := by
    intro hsome
    obtain ⟨nodeId, howner, hmember⟩ := hkept hsome
    exact hcall.owners_ne_nil howner hmember
  have hsome : (x.map key).map CacheEntry.plain ≠ none → x.map key ≠ none := by
    intro hcopy hnone
    exact hcopy (by rw [hnone]; rfl)
  refine ⟨⟨?_, hrebalancing.healthy.noTtl.transport, hrebalancing.healthy.answers, hquiescent⟩,
    hrebalancing.placed hquiescent hcopy (fun hcopy => hkept (hsome hcopy))
      fun hcopy => howned (hsome hcopy), ?_⟩
  · dsimp only
    rw [hrebalancing.front.manager]
    exact hcall.reachable h.rest.manager
  · dsimp only
    rw [hrebalancing.ring]
    exact howned

/-- **A step of a history keeps a key placed.** -/
theorem Mirrors.step (h : x.Mirrors hashToInt ids key) {e : HistoryEvent V}
    (hstep : Sequential hashToInt ids (ReturnsCurrent hashToInt key) x e x') :
    x'.Mirrors hashToInt ids key := by
  cases hstep with
  | client halive hallowed hmap hrun hquiescent =>
    subst hmap
    exact h.client halive hallowed.1
      (hrun.mono fun _ _ _ hs => ⟨hs.1, hs.2.1.1, hs.2.2⟩) hquiescent
  | change hcall hallowed hrun hquiescent =>
    exact h.change hcall hallowed (hrun.mono fun _ _ _ hs => ⟨hs.1, hs.2.1.1, hs.2.2⟩) hquiescent

/-! ### The cluster as a map -/

/-- Client calls are about the keys `keys`, and some node is a member. A node that joins has
nothing stored, and room for all keys. -/
def UsesKeys (keys : Finset String) (x : Observed V) : Event V → Prop
  | .call _ (.put key _ _) | .call _ (.get key) | .call _ (.delete key) =>
    key ∈ keys ∧ ∃ nodeId, nodeId ∈ x.cluster.manager.nodes
  | .call clock (.addNode node runtime) =>
    (∀ key, x.cluster.JoinsWithout clock key (.addNode node runtime)) ∧
      ∀ capacity ∈ (x.cluster.transport.registerNode (clock 0) node runtime).capacity node.nodeId,
        keys.card ≤ capacity
  | _ => True

/-- A cluster at rest whose members have nothing stored, and room for the keys `keys`. -/
structure Fresh (hashToInt : String → ℕ) (ids : Set String) (keys : Finset String)
    (x : Observed V) : Prop where
  rest : x.cluster.AtRest hashToInt ids
  stores : ∀ nodeId ∈ x.cluster.manager.nodes, ∀ key, x.cluster.transport.lookup nodeId key = none
  capacity : ∀ nodeId ∈ x.cluster.manager.nodes, ∀ capacity ∈ x.cluster.transport.capacity nodeId,
    keys.card ≤ capacity
  map : x.map = fun _ => none

/-- All keys are placed, and the members have room for those that are in use. -/
structure IsMap (hashToInt : String → ℕ) (ids : Set String) (keys : Finset String)
    (x : Observed V) : Prop where
  mirrors : ∀ key, x.Mirrors hashToInt ids key
  noCollision : NoCollision hashToInt x.cluster.manager.ring.replicas ids
  capacity : ∀ nodeId ∈ x.cluster.manager.nodes, ∀ capacity ∈ x.cluster.transport.capacity nodeId,
    keys.card ≤ capacity
  keys : ∀ key, x.map key ≠ none → key ∈ keys

variable {keys : Finset String}

theorem Fresh.isMap (h : x.Fresh hashToInt ids keys)
    (hcf : NoCollision hashToInt x.cluster.manager.ring.replicas ids) :
    x.IsMap hashToInt ids keys := by
  refine ⟨fun key => ⟨h.rest, fun nodeId hn => ?_, fun hsome => ?_⟩, hcf, h.capacity,
    fun key hsome => ?_⟩
  · rw [h.stores nodeId hn, h.map, Option.map_none, ite_self]
  · exact absurd (congrFun h.map key) hsome
  · exact absurd (congrFun h.map key) hsome

namespace IsMap

theorem rest (h : x.IsMap hashToInt ids keys) : x.cluster.AtRest hashToInt ids :=
  (h.mirrors "").rest

theorem owners_ne_nil (h : x.IsMap hashToInt ids keys) {nodeId : String}
    (hn : nodeId ∈ x.cluster.manager.nodes) (key : String) :
    x.cluster.manager.ring.owners hashToInt key ≠ [] := by
  have hcoherent := h.rest.manager.coherent
  have hmem : nodeId ∈ x.cluster.manager.ring.nodes := by
    rw [OrderedDict.mem_iff_exists_get?, hcoherent.nodes_eq, ← OrderedDict.mem_iff_exists_get?]
    exact hn
  obtain ⟨p, q, hpair⟩ :=
    (h.rest.manager.fullyPlaced h.noCollision).exists_primary hmem key
  exact List.ne_nil_of_mem ((ConsistentHashRing.mem_owners hashToInt).mpr (Or.inl (by rw [hpair])))

theorem mem_keys (h : x.IsMap hashToInt ids keys) {nodeId : String}
    (hn : nodeId ∈ x.cluster.manager.nodes)
    (hstored : (x.cluster.transport.lookup nodeId key).isSome) : key ∈ keys := by
  refine h.keys key fun hnone => ?_
  rw [(h.mirrors key).placed nodeId hn, hnone, Option.map_none, ite_self] at hstored
  cases hstored

/-- A client call about one of the keys evicts nothing. -/
theorem noEviction_call (h : x.IsMap hashToInt ids keys) (halive : x.cluster.AllAlive clock)
    {op : ClientOp V} (hkey : op.key ∈ keys) :
    x.cluster.NoEviction hashToInt (.call clock op.call) := by
  intro cell hcell
  have hsteady := h.rest.healthy.steady halive op.key
  have hlive := liveOwners_true hashToInt x.cluster.manager op.key
  cases op with
  | put key value =>
    dsimp only [ClientOp.key] at hsteady hlive
    obtain ⟨target, htarget, rfl⟩ := Option.map_eq_some_iff.mp hcell
    cases howners : x.cluster.manager.ring.owners hashToInt key with
    | nil =>
      rw [servedBy_eq_none hsteady (hlive.trans howners)] at htarget
      cases htarget
    | cons first rest =>
      rw [servedBy_eq_some hsteady (hlive.trans howners)] at htarget
      obtain rfl := Option.some.inj htarget
      have hmember : first.nodeId ∈ x.cluster.manager.nodes :=
        h.rest.healthy.mem_of_mem_owners (by rw [howners]; exact List.mem_cons_self)
      exact NodeTransport.hasRoom_of_subset (fun k hk => h.mem_keys hmember hk) hkey
        (h.capacity _ hmember)
  | get key => cases hcell
  | delete key => cases hcell

/-- The background steps after a client call about one of the keys evict nothing. -/
theorem runWell_client (h : x.IsMap hashToInt ids keys) (halive : x.cluster.AllAlive clock)
    {op : ClientOp V} (hkey : op.key ∈ keys) {Q : DistributedCacheCluster V → BackgroundStep → Prop}
    (hrun : Run (fun d s d' => s.Succeeds ∧ Q d s ∧ d.runBackground hashToInt s = some d')
      (x.cluster.serve hashToInt clock op.call).2 background c) :
    Run (WorksWell hashToInt) (x.cluster.serve hashToInt clock op.call).2 background c := by
  have hroom := h.noEviction_call halive hkey
  obtain ⟨r, c₁, hserve, hserved, hserved'⟩ := (h.mirrors op.key).exists_served halive hroom
  rw [hserve] at hrun ⊢
  have hhealthy := hserved.healthy h.rest.healthy
  have hdone : ∀ task ∈ c₁.rebalances, task.Done := by
    rw [hserved.rebalances]
    exact h.rest.quiescent.rebalances
  refine hrun.mono_of_invariant (I := Draining c₁) (fun d s d' hd hs => ?_)
    (.refl hhealthy.noTtl)
  have hworks : d.WorksWell hashToInt s d' := by
    refine ⟨hs.1, noEviction_background s (fun w hw => ?_) fun task htask ring pending hphase => ?_,
      hs.2.2⟩
    · have hw₁ : w ∈ c₁.replicaWrites := hd.replicaWrites.subset hw
      have hmember : w.node.nodeId ∈ x.cluster.manager.nodes := by
        rw [← hserved.manager.nodes]
        exact hhealthy.replicaTargets w hw₁
      refine NodeTransport.hasRoom_of_subset (fun k hk => (?_ : k ∈ keys)) ?_ ?_
      · have hlanded : (d.landed w.node.nodeId k).isSome := isSome_landed hk
        rw [hd.landed, hserved'.landed] at hlanded
        split_ifs at hlanded with hcell
        · rw [hcell.1]
          exact hkey
        · exact h.mem_keys hmember hlanded
      · rw [(hserved'.replicaTargets w hw₁).2]
        exact hkey
      · rw [(hserved'.sameNodes.trans hd.sameNodes).capacity]
        exact h.capacity _ hmember
    · rw [hd.rebalances] at htask
      obtain ⟨ring', hdone⟩ := done_iff.mp (hdone task htask)
      rw [hdone] at hphase
      obtain ⟨-, rfl⟩ := RebalancePhase.migrating.inj hphase
      exact fun node k value ttlSeconds hput => absurd hput List.not_mem_nil
  exact ⟨hworks, hd.step hdone hserved'.replicaWrites
    (fun w hw => hhealthy.answers _ (hhealthy.replicaTargets w hw)) hworks⟩

/-- The background steps after a topology change evict nothing. -/
theorem runWell_change (h : x.IsMap hashToInt ids keys) {call : Call V}
    (hcall : x.cluster.Rearranges ids clock call)
    (hwithout : ∀ key, x.cluster.JoinsWithout clock key call)
    (hcapacity : ∀ nodeId ∈ (x.cluster.serve hashToInt clock call).2.manager.nodes,
      ∀ capacity ∈ (x.cluster.serve hashToInt clock call).2.transport.capacity nodeId,
        keys.card ≤ capacity)
    {Q : DistributedCacheCluster V → BackgroundStep → Prop}
    (hrun : Run (fun d s d' => s.Succeeds ∧ Q d s ∧ d.runBackground hashToInt s = some d')
      (x.cluster.serve hashToInt clock call).2 background c) :
    Run (WorksWell hashToInt) (x.cluster.serve hashToInt clock call).2 background c := by
  have hstart : Rebalancing hashToInt True x.cluster _ _ :=
    (hcall.rearranged h.rest).rebalancing
  have hstored : ∀ key, ∀ nodeId ∈ (x.cluster.serve hashToInt clock call).2.manager.nodes,
      ((x.cluster.serve hashToInt clock call).2.transport.lookup nodeId key).isSome →
        key ∈ keys := by
    intro key nodeId hn hsome
    rw [hcall.lookup_of_placed h.rest.manager.coherent (h.mirrors key).placed (hwithout key) hn] at hsome
    refine h.keys key fun hnone => ?_
    rw [hnone, Option.map_none, ite_self] at hsome
    cases hsome
  refine hrun.mono_of_invariant (I := Rebalancing hashToInt True x.cluster _)
    (fun d s d' hd hs => ?_) hstart
  have hworks : d.WorksWell hashToInt s d' := by
    refine ⟨hs.1, noEviction_background s (fun w hw => ?_) fun task htask ring pending hphase node k
      value ttlSeconds hput => ?_, hs.2.2⟩
    · rw [hd.replicaWrites] at hw
      cases hw
    · have hmember : node.nodeId ∈ (x.cluster.serve hashToInt clock call).2.manager.nodes := by
        rw [← hd.nodes]
        refine hd.healthy.targets task htask _ ?_
        rw [hphase]
        exact List.mem_map_of_mem (f := MigrationTask.nodeId) hput
      obtain ⟨index, hindex⟩ := List.mem_iff_getElem?.mp htask
      refine NodeTransport.hasRoom_of_subset (fun k' hk' => (?_ : k' ∈ keys)) ?_ ?_
      · obtain ⟨entry, hentry⟩ := Option.isSome_iff_exists.mp hk'
        obtain ⟨other, hother, hcopy⟩ := hd.exists_of_lookup hmember hentry
        exact hstored k' other hother (by rw [hcopy]; rfl)
      · -- a scheduled put stores what some member had
        have hwrite : (⟨node.nodeId, some ⟨value, none⟩⟩ : Write String (CacheEntry V)) ∈
            pendingWrites k pending := ⟨_, hput, by rw [MigrationTask.write, if_pos rfl]⟩
        obtain ⟨other, hother, hcopy⟩ := (hd.lone k).exists_of_pending
          (getElem?_jobs_keyView hashToInt k hindex hphase) rfl hwrite rfl
        exact hstored k other hother (by rw [hcopy]; rfl)
      · rw [hd.front.sameNodes.capacity]
        exact hcapacity _ hmember
  exact ⟨hworks, hd.step hworks.2 fun _ => hworks.1⟩

/-- After a topology change the members have room for the keys in use. -/
private theorem capacity_change (h : x.IsMap hashToInt ids keys) {call : Call V}
    (hcall : x.cluster.Rearranges ids clock call) (hallowed : x.UsesKeys keys (.call clock call)) :
    ∀ nodeId ∈ (x.cluster.serve hashToInt clock call).2.manager.nodes,
      ∀ capacity ∈ (x.cluster.serve hashToInt clock call).2.transport.capacity nodeId,
        keys.card ≤ capacity := by
  intro nodeId hn
  cases hcall with
  | @addNode node runtime hid hjoins =>
    rw [addNode_eq hjoins.new] at hn ⊢
    by_cases hnode : nodeId = node.nodeId
    · rw [hnode]
      exact hallowed.2
    · have hold := (OrderedDict.mem_set.mp hn).resolve_left hnode
      change ∀ capacity ∈ (x.cluster.transport.registerNode (clock 0) node runtime).capacity nodeId,
        keys.card ≤ capacity
      rw [NodeTransport.capacity_registerNode_of_ne hnode]
      exact h.capacity nodeId hold
  | removeNode hmember hother =>
    rw [removeNode_eq hmember] at hn ⊢
    exact h.capacity nodeId (OrderedDict.mem_pop.mp hn).2

/-- Nodes that join with empty stores bring nothing back, and without collisions some owner of a
key stays when a member leaves. -/
private theorem returnsCurrent (h : x.IsMap hashToInt ids keys) {call : Call V}
    (hcall : x.cluster.Rearranges ids clock call) (hallowed : x.UsesKeys keys (.call clock call))
    (key : String) : x.ReturnsCurrent hashToInt key (.call clock call) := by
  cases hcall with
  | addNode hid hjoins => exact ⟨fun cell hcell => (by cases hcell), Or.inl (hallowed.1 key)⟩
  | removeNode hmember hother =>
    have hcall : x.cluster.Rearranges ids clock (.removeNode _) := .removeNode hmember hother
    refine ⟨fun cell hcell => (by cases hcell), fun _ => ?_⟩
    obtain ⟨node, hold, hnew⟩ :=
      hcall.exists_kept_owner h.rest.manager h.noCollision hmember key
    have hstays := (hcall.rearranged h.rest).healthy.mem_of_mem_owners hnew
    rw [removeNode_eq hmember] at hstays
    exact ⟨node.nodeId, List.mem_map_of_mem hold, (OrderedDict.mem_pop.mp hstays).1⟩

/-- **One step of a history on a cluster that is a map.** -/
theorem step (h : x.IsMap hashToInt ids keys) {e : HistoryEvent V}
    (hstep : Sequential hashToInt ids (UsesKeys keys) x e x') :
    x'.IsMap hashToInt ids keys ∧ x'.map = e.run x.map := by
  cases hstep with
  | @client clock op background m c halive hallowed hmap hrun hquiescent =>
    obtain ⟨hkey, nodeId, hmember⟩ : op.key ∈ keys ∧ ∃ nodeId, nodeId ∈ x.cluster.manager.nodes := by
      cases op <;> exact hallowed
    subst hmap
    have hroom := h.noEviction_call halive hkey
    have hwell := h.runWell_client halive hkey hrun
    obtain ⟨r, c₁, hserve, hserved, hserved'⟩ := (h.mirrors op.key).exists_served halive hroom
    obtain ⟨-, hmanager, hsame, -⟩ := h.rest.drained hserved (hserve ▸ hwell) hquiescent
    have hmap : op.observe (x.cluster.serve hashToInt clock op.call).1 x.map = op.run x.map := by
      rw [hserve]
      refine ClientOp.observe_of_is (hserved'.answer ?_)
      rw [liveOwners_true]
      exact h.owners_ne_nil hmember op.key
    refine ⟨⟨fun key => (h.mirrors key).client halive hroom hwell hquiescent, ?_, ?_, ?_⟩, hmap⟩
    · rw [hmanager.ring]
      exact h.noCollision
    · intro nodeId hn
      rw [hmanager.nodes] at hn
      rw [hsame.capacity]
      exact h.capacity nodeId hn
    · intro key hsome
      by_cases hne : key = op.key
      · exact hne ▸ hkey
      · refine h.keys key fun hnone => hsome ?_
        exact (ClientOp.observe_of_ne hne _ x.map).trans hnone
  | @change clock call background c hcall hallowed hrun hquiescent =>
    have hwithout : ∀ key, x.cluster.JoinsWithout clock key call := by
      intro key
      cases hcall with
      | addNode hid hjoins => exact hallowed.1 key
      | removeNode hmember hother => trivial
    have hcapacity := h.capacity_change hcall hallowed
    have hwell := h.runWell_change hcall hwithout hcapacity hrun
    have hrebalancing := (hcall.rearranged h.rest).rebalancing.runWell hwell
    refine ⟨⟨fun key => (h.mirrors key).change hcall (h.returnsCurrent hcall hallowed key) hwell
      hquiescent, ?_, ?_, h.keys⟩, rfl⟩
    · rw [hrebalancing.ring, hcall.replicas]
      exact h.noCollision
    · intro nodeId hn
      rw [hrebalancing.nodes] at hn
      rw [hrebalancing.front.sameNodes.capacity]
      exact hcapacity nodeId hn

/-- A history on a cluster that is a map. -/
theorem run (h : x.IsMap hashToInt ids keys) {events : List (HistoryEvent V)}
    (hrun : Run (Sequential hashToInt ids (UsesKeys keys)) x events x') :
    x'.IsMap hashToInt ids keys ∧ x'.map = events.foldl HistoryEvent.run x.map := by
  induction hrun with
  | nil x => exact ⟨h, rfl⟩
  | cons hstep _ ih =>
    obtain ⟨hnext, hmap⟩ := h.step hstep
    obtain ⟨hend, hfold⟩ := ih hnext
    exact ⟨hend, by rw [hfold, hmap, List.foldl_cons]⟩

end IsMap

/-- **The cluster is a map.** After every sequential history of puts, gets, deletes, additions
and removals from empty stores, within the capacity of the nodes and without collisions of the
hash, every member holds exactly the keys that it owns, with the value of the plain map of the
calls, and the next call is answered as by that map. -/
theorem cluster_is_map {start : Observed V} {events : List (HistoryEvent V)}
    (hstart : start.Fresh hashToInt ids keys)
    (hcf : NoCollision hashToInt start.cluster.manager.ring.replicas ids)
    (hrun : Run (Sequential hashToInt ids (UsesKeys keys)) start events x) :
    (∀ nodeId ∈ x.cluster.manager.nodes, ∀ key, x.cluster.transport.lookup nodeId key =
      if nodeId ∈ x.cluster.manager.ring.ownerIds hashToInt key then (x.map key).map .plain
      else none) ∧
    x.map = events.foldl HistoryEvent.run (fun _ => none) ∧
    ∀ clock (op : ClientOp V), x.cluster.AllAlive clock → x.UsesKeys keys (.call clock op.call) →
      ∃ r, (x.cluster.serve hashToInt clock op.call).1 = some r ∧ r.Is (op.answer x.map) := by
  obtain ⟨h, hmap⟩ := (hstart.isMap hcf).run hrun
  rw [hstart.map] at hmap
  refine ⟨fun nodeId hn key => (h.mirrors key).placed nodeId hn, hmap, fun clock op halive hop => ?_⟩
  obtain ⟨hkey, nodeId, hmember⟩ : op.key ∈ keys ∧ ∃ nodeId, nodeId ∈ x.cluster.manager.nodes := by
    cases op <;> exact hop
  obtain ⟨r, c₁, hserve, -, hserved⟩ :=
    (h.mirrors op.key).exists_served halive (h.noEviction_call halive hkey)
  refine ⟨r, by rw [hserve], hserved.answer ?_⟩
  rw [liveOwners_true]
  exact h.owners_ne_nil hmember op.key

/-- `cluster_is_map` where a key is put and a node joins, which becomes its primary. -/
theorem cluster_is_map_node_joins :
    let start : Observed ℕ := ⟨sampleHolding ["a", "b"] [], fun _ => none⟩
    let put : HistoryEvent ℕ :=
      .client (fun _ => 0) (.put "k" 1) [.replicate 0 (fun _ => 0) .carriedOut]
    let join : HistoryEvent ℕ := .change (fun _ => 0) (.addNode (sampleNode "n") none)
      [.begin 0, .snapshot 0 0 .carriedOut, .snapshot 0 0 .carriedOut, .snapshot 0 0 .carriedOut,
        .plan 0 0 fun _ _ => 0, .migrate 0 0 (fun _ => 0) .carriedOut,
        .migrate 0 0 (fun _ => 0) .carriedOut]
    ∃ x, Run (Sequential sampleHash {"m", "n", "a", "b", "c"} (UsesKeys {"k"})) start [put, join] x ∧
      x.cluster.transport.lookup "n" "k" = some (.plain 1) ∧
      x.cluster.transport.lookup "b" "k" = none := by
  intro start put join
  let call : Call ℕ := .addNode (sampleNode "n") none
  let placed : DistributedCacheCluster ℕ → Bool := fun d => decide (d.Quiescent ∧
    d.manager.nodes.keys = ["a", "b", "n"] ∧
    d.manager.ring.ownerIds sampleHash "k" = ["n", "a"])
  obtain ⟨c, hput, hc⟩ := exists_run sampleHash
    (start.cluster.serve sampleHash (fun _ => 0) (.put "k" (some 1) none)).2
    [.replicate 0 (fun _ => 0) .carriedOut]
    (fun c => decide (c.Quiescent ∧ "n" ∉ c.manager.nodes ∧
      (c.transport.registerNode 0 (sampleNode "n") none).Answers "n" ∧
      (c.transport.kind = .inProcess) ∧
      ((c.serve sampleHash (fun _ => 0) call).2.runAll sampleHash
        [.begin 0, .snapshot 0 0 .carriedOut, .snapshot 0 0 .carriedOut,
          .snapshot 0 0 .carriedOut, .plan 0 0 fun _ _ => 0, .migrate 0 0 (fun _ => 0) .carriedOut,
          .migrate 0 0 (fun _ => 0) .carriedOut]).any placed = true))
    (by decide +kernel)
  obtain ⟨hquiescent, hnew, hanswers, hkind, hjoin⟩ := of_decide_eq_true hc
  obtain ⟨d, hjoin, hd⟩ := exists_run sampleHash _ _ _ hjoin
  obtain ⟨hquiescent', hnodes, howners⟩ := of_decide_eq_true hd
  have hruntime : (c.transport.registerNode 0 (sampleNode "n") none).runtimes "n" =
      some (sampleRuntime "n") := NodeTransport.runtimes_registerNode_self hkind
  have hempty : ∀ key, c.JoinsWithout (fun _ => 0) key call := by
    intro key
    change (c.transport.registerNode 0 (sampleNode "n") none).lookup "n" key = none
    rw [NodeTransport.lookup, hruntime]
    rfl
  have hcapacity : ∀ capacity ∈ (c.transport.registerNode 0 (sampleNode "n") none).capacity "n",
      ({"k"} : Finset String).card ≤ capacity := by
    rw [NodeTransport.capacity, hruntime]
    rintro capacity hcapacity
    obtain rfl := Option.some.inj hcapacity
    decide +kernel
  have hstart : start.Fresh sampleHash {"m", "n", "a", "b", "c"} {"k"} := by
    refine ⟨sampleHolding_atRest _ _ (by simp), fun nodeId _ key => ?_,
      fun nodeId _ capacity hcapacity => ?_, rfl⟩
    · rw [sampleHolding_lookup, if_neg fun h => List.not_mem_nil h.1]
    · change (if nodeId ∈ ["a", "b"] then some (sampleRuntime nodeId) else none).map
        (fun rt => rt.store.maxItems) = some capacity at hcapacity
      split_ifs at hcapacity with hid
      · obtain rfl := Option.some.inj hcapacity
        exact show 1 ≤ 1024 by decide
      · cases hcapacity
  let m := (ClientOp.put "k" 1).observe
    (start.cluster.serve sampleHash (fun _ => 0) (.put "k" (some 1) none)).1 start.map
  have hjoins : c.Joins (fun _ => 0) (sampleNode "n") none := by
    refine ⟨hnew, hanswers, fun key entry hentry => ?_⟩
    have hnone : (c.transport.registerNode 0 (sampleNode "n") none).lookup "n" key = none :=
      hempty key
    cases hnone.symm.trans hentry
  have hrun : Run (Sequential sampleHash {"m", "n", "a", "b", "c"} (UsesKeys {"k"})) start
      [put, join] ⟨d, m⟩ :=
    .cons (.client (allAlive_const (by decide +kernel)) ⟨by decide, "a", by decide +kernel⟩ rfl
        (hput.mono fun _ _ _ hs => ⟨hs.1, trivial, hs.2.2⟩) hquiescent)
      (.single (.change (.addNode (by simp [sampleNode]) hjoins) ⟨hempty, hcapacity⟩
        (hjoin.mono fun _ _ _ hs => ⟨hs.1, trivial, hs.2.2⟩) hquiescent'))
  obtain ⟨hplaced, hmap, -⟩ := cluster_is_map hstart sampleHash_noCollision hrun
  have hm : m "k" = some 1 := congrFun hmap "k"
  have hmembers : ∀ nodeId ∈ ["a", "b", "n"], nodeId ∈ d.manager.nodes := fun nodeId hn => by
    rw [OrderedDict.mem_def, hnodes]
    exact hn
  refine ⟨⟨d, m⟩, hrun, ?_, ?_⟩
  · rw [hplaced "n" (hmembers "n" (by decide)), howners, if_pos (by decide)]
    exact congrArg (Option.map CacheEntry.plain) hm
  · rw [hplaced "b" (hmembers "b" (by decide)), howners, if_neg (by decide)]

end Observed

end DistributedCache
