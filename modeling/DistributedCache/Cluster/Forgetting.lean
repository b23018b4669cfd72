import DistributedCache.Cache.Retention
import DistributedCache.Cluster.Copies
import DistributedCache.Cluster.History
import DistributedCache.Cluster.NodeViews

/-!
# What evictions and lifetimes do to the map

Entries expire, and a full store evicts the entry that was not used for longest. A cluster with
lifetimes and full stores is no map any more, but it only forgets: a get finds the value of the
last acknowledged put or nothing, never a value that was overwritten or deleted. This holds along
histories in which clients and operators call the gateway one after another, across topology
changes and with stores of any capacity, as long as no call to a node fails and no rebalance
plans with entries that have expired since it read them.

A put with a lifetime that is over at once erases the key. A delete that is refused, because the
first owner has forgotten the key, leaves the copy of the second one, and the clients are told.

## Main definitions

* `Call.told` : the values that the clients rely on, after a call and its response.
* `DistributedCacheCluster.PlansInTime` : a rebalance plans before the entries expire.
* `Remembered.Step` : a call, and the background steps up to the next one.
* `Remembered.Sound` : the unexpired copies of the members are current and at owners.

## Main results

* `Remembered.Sound.step` : a step leaves all copies current.
* `evictions_only_forget` : what a get answers after a history.
-/

namespace DistributedCache

open Library Library.Relocation DistributedCacheCluster

variable {V : Type*} {hashToInt : String → ℕ} {ids : Set String}

/-- The value that a put leaves for its key; `none` where its lifetime is over at once. -/
def valueLeft (value : Option V) (ttlSeconds : Option Time) : Option (Option V) :=
  (CacheStore.putEntry 0 value ttlSeconds).map CacheEntry.value

/-- The values that the clients rely on, after a call and its response. -/
def Call.told (call : Call V) (r : Option (Response V)) (m : KeyValueMap (Option V)) :
    KeyValueMap (Option V) :=
  if r.any Response.ok then
    match call with
    | .put key value ttlSeconds => Function.update m key (valueLeft value ttlSeconds)
    | .delete key => Function.update m key none
    | _ => m
  else m

/-- All readings of the clock by the step are between the two times. -/
def BackgroundStep.Within (t t' : Time) : BackgroundStep → Prop
  | .replicate _ clock _ | .migrate _ _ clock _ => ∀ i, t ≤ clock i ∧ clock i ≤ t'
  | .snapshot _ now _ | .plan _ now _ | .cleanup _ now => t ≤ now ∧ now ≤ t'
  | .begin _ => True

/-- No entry that a rebalance has read is expired by the time it plans. -/
def DistributedCacheCluster.PlansInTime (c : DistributedCacheCluster V) : BackgroundStep → Prop
  | .plan index now _ => ∀ task ring snapshots, c.rebalances[index]? = some task →
      task.phase = .collecting ring [] snapshots →
        ∀ nodeId key entry, snapshots.seen key nodeId = some (some entry) →
          entry.isExpired now = false
  | _ => True

/-- A step of the background loop that does not fail, from the one time to the other. -/
def DistributedCacheCluster.Settles (hashToInt : String → ℕ) (x : DistributedCacheCluster V × Time)
    (s : BackgroundStep) (x' : DistributedCacheCluster V × Time) : Prop :=
  (s.Succeeds ∧ x.1.PlansInTime s ∧ x.2 ≤ x'.2 ∧ s.Within x.2 x'.2) ∧
    x.1.runBackground hashToInt s = some x'.1

/-- The gateway at a time, with the values that its clients rely on. -/
structure Remembered (V : Type*) where
  cluster : DistributedCacheCluster V
  now : Time
  told : KeyValueMap (Option V)

/-- A call that is answered at a time, with the background steps up to the next call. -/
structure SettledCall (V : Type*) where
  clock : Clock
  call : Call V
  answered : Time
  background : List BackgroundStep

namespace Remembered

/-- The owners of a key that is written are alive throughout the call. A node that joins answers,
and has nothing stored. -/
def Accepts (hashToInt : String → ℕ) (ids : Set String) (x : Remembered V) (clock : Clock) :
    Call V → Prop
  | .put key _ _ | .delete key => x.cluster.manager.Steady hashToInt clock (fun _ => true) key
  | .addNode node runtime => node.nodeId ∉ x.cluster.manager.nodes → node.nodeId ∈ ids ∧
      (x.cluster.transport.registerNode (clock 0) node runtime).Answers node.nodeId ∧
        ∀ key, x.cluster.JoinsWithout clock key (.addNode node runtime)
  | .get _ | .heartbeat _ | .removeNode _ => True

/-- A call, and the background steps until nothing is left to do. -/
structure Step (hashToInt : String → ℕ) (ids : Set String) (x : Remembered V) (e : SettledCall V)
    (x' : Remembered V) : Prop where
  accepts : x.Accepts hashToInt ids e.clock e.call
  within : ∀ i, x.now ≤ e.clock i ∧ e.clock i ≤ e.answered
  settles : Run (Settles hashToInt) ((x.cluster.serve hashToInt e.clock e.call).2, e.answered)
    e.background (x'.cluster, x'.now)
  quiescent : x'.cluster.Quiescent
  told : x'.told = e.call.told (x.cluster.serve hashToInt e.clock e.call).1 x.told

end Remembered

/-- The copies of the members that have not expired are copies of the values told, at owners. -/
def DistributedCacheCluster.Current (hashToInt : String → ℕ) (ring : ConsistentHashRing)
    (told : KeyValueMap (Option V)) (t : Time) (c : DistributedCacheCluster V) : Prop :=
  ∀ nodeId ∈ c.manager.nodes, ∀ key entry, c.transport.unexpired t nodeId key = some entry →
    nodeId ∈ ring.ownerIds hashToInt key ∧ told key = some entry.value

/-- Nothing is left to do in the background, and the copies of the members are current. -/
structure Remembered.Sound (hashToInt : String → ℕ) (ids : Set String) (x : Remembered V) :
    Prop where
  manager : x.cluster.manager.Reachable hashToInt ids
  noCollision : NoCollision hashToInt x.cluster.manager.ring.replicas ids
  answers : ∀ nodeId ∈ x.cluster.manager.nodes, x.cluster.transport.Answers nodeId
  quiescent : x.cluster.Quiescent
  current : x.cluster.Current hashToInt x.cluster.manager.ring x.told x.now

/-! ### Copies -/

theorem valueLeft_of_putEntry {now : Time} {value : Option V} {ttlSeconds : Option Time}
    {entry : CacheEntry V} (h : CacheStore.putEntry now value ttlSeconds = some entry) :
    valueLeft value ttlSeconds = some entry.value := by
  cases ttlSeconds with
  | none =>
    obtain rfl := Option.some.inj h
    rfl
  | some ttlSeconds =>
    rw [CacheStore.putEntry] at h
    split_ifs at h with hover
    obtain rfl := Option.some.inj h
    rw [valueLeft, CacheStore.putEntry, if_neg hover]
    rfl

namespace NodeTransport

variable {t t' : NodeTransport V} {now now' : Time} {n key : String} {entry : CacheEntry V}

/-- What has not expired later was there and had not expired before, if nothing was stored. -/
theorem unexpired_of_lookup
    (h : t'.unexpired now' n key = some entry) (hle : now ≤ now')
    (hlookup : t'.lookup n key = some entry → t.lookup n key = some entry) :
    t.unexpired now n key = some entry := by
  obtain ⟨hentry, hlive⟩ := unexpired_eq_some_iff.mp h
  refine unexpired_eq_some_iff.mpr ⟨hlookup hentry, ?_⟩
  by_contra hexpired
  rw [CacheStore.isExpired_mono (Bool.of_not_eq_false hexpired) hle] at hlive
  cases hlive

/-- A put on a node that answers is carried out. -/
theorem exists_put {node : NodeConfig} (h : t.Answers node.nodeId) (clock : Clock) (key : String)
    (value : Option V) (ttlSeconds : Option Time) :
    ∃ result t', t.put clock node key value ttlSeconds = some (result, t') := by
  obtain ⟨rt, hrt⟩ := Option.isSome_iff_exists.mp h
  rw [put, hrt]
  exact ⟨_, _, rfl⟩

theorem sameNodes_put {clock : Clock} {node : NodeConfig} {value : Option V}
    {ttlSeconds : Option Time} {result : OperationResult}
    (h : t.put clock node key value ttlSeconds = some (result, t')) : t.SameNodes t' := by
  obtain ⟨rt, hrt, heq⟩ := Option.map_eq_some_iff.mp h
  obtain ⟨-, rfl⟩ := Prod.mk.inj heq
  exact sameNodes_of_runtime? hrt (CacheStore.maxItems_put _ _ _ _ _)

theorem sameNodes_get {clock : Clock} {node : NodeConfig} {answer : Bool × Option V}
    (h : t.get clock node key = some (answer, t')) : t.SameNodes t' := by
  obtain ⟨rt, hrt, heq⟩ := Option.map_eq_some_iff.mp h
  obtain ⟨-, rfl⟩ := Prod.mk.inj heq
  exact sameNodes_of_runtime? hrt (CacheStore.maxItems_get _ _ _)

end NodeTransport

namespace DistributedCacheCluster

variable {c c' : DistributedCacheCluster V} {clock : Clock} {key : String}
  {told : KeyValueMap (Option V)} {ring : ConsistentHashRing} {t t' : Time}

/-- From `c` to `c'` some copies may have been lost and heartbeats recorded, nothing else. -/
structure OnlyForgets (c c' : DistributedCacheCluster V) : Prop where
  manager : HeartbeatOnly c.manager c'.manager
  sameNodes : c.transport.SameNodes c'.transport
  replicaWrites : c'.replicaWrites = c.replicaWrites
  rebalances : c'.rebalances = c.rebalances
  lookup : ∀ n k entry, c'.transport.lookup n k = some entry → c.transport.lookup n k = some entry

theorem OnlyForgets.refl (c : DistributedCacheCluster V) : OnlyForgets c c :=
  ⟨Or.inl rfl, .refl _, rfl, rfl, fun _ _ _ h => h⟩

/-- Copies that were current stay so, as time passes and copies are lost. -/
theorem Current.mono (h : c.Current hashToInt ring told t) (hle : t ≤ t')
    (hnodes : c'.manager.nodes = c.manager.nodes)
    (hlookup : ∀ n k entry, c'.transport.lookup n k = some entry →
      c.transport.lookup n k = some entry) : c'.Current hashToInt ring told t' := by
  intro nodeId hn k entry hentry
  rw [hnodes] at hn
  exact h nodeId hn k entry
    (NodeTransport.unexpired_of_lookup hentry hle (hlookup nodeId k entry))

/-! ### Client calls -/

/-- A call to a node that loses copies at most. -/
private theorem onlyForgets_of_transport {transport : NodeTransport V}
    (hsame : c.transport.SameNodes transport)
    (hlookup : ∀ n k entry, transport.lookup n k = some entry →
      c.transport.lookup n k = some entry) : OnlyForgets c { c with transport := transport } :=
  ⟨Or.inl rfl, hsame, rfl, rfl, hlookup⟩

theorem onlyForgets_get (c : DistributedCacheCluster V) (clock : Clock) (key : String) :
    OnlyForgets c (c.get hashToInt clock key).2 := by
  rw [get]
  dsimp only
  split
  · exact .refl c
  · split
    · exact .refl c
    · rename_i hfound
      exact ⟨Or.inr ⟨_, _, rfl⟩, NodeTransport.sameNodes_get hfound, rfl, rfl,
        fun _ _ _ => NodeTransport.lookup_of_get hfound⟩
    · rename_i hmissing
      have hsame := NodeTransport.sameNodes_get hmissing
      split
      · exact onlyForgets_of_transport hsame fun _ _ _ => NodeTransport.lookup_of_get hmissing
      · split
        · exact onlyForgets_of_transport hsame fun _ _ _ => NodeTransport.lookup_of_get hmissing
        all_goals
          rename_i hother
          exact onlyForgets_of_transport (hsame.trans (NodeTransport.sameNodes_get hother))
            fun _ _ _ h => NodeTransport.lookup_of_get hmissing
              (NodeTransport.lookup_of_get hother h)

/-- What a put does while the owners of its key are alive and answer: it writes the first owner
and submits the write of the second one. -/
theorem put_of_alive (hsteady : c.manager.Steady hashToInt clock (fun _ => true) key)
    (hanswers : ∀ node ∈ c.manager.ring.owners hashToInt key, c.transport.Answers node.nodeId)
    (value : Option V) (ttlSeconds : Option Time) :
    c.put hashToInt clock key value ttlSeconds = (some noLiveNodes, c) ∨
    ∃ target rest result transport, c.manager.ring.owners hashToInt key = target :: rest ∧
      c.transport.put (clock.after 3) target key value ttlSeconds = some (result, transport) ∧
      c.put hashToInt clock key value ttlSeconds =
        (some { ok := true, statusCode := 200, servedBy := some target.nodeId },
          { c with
            manager := c.manager.recordHeartbeat (clock 5) target.nodeId
            transport := transport
            replicaWrites := c.replicaWrites ++
              rest.map fun node => ⟨node, key, value, ttlSeconds⟩ }) := by
  have hlive := liveOwners_true hashToInt c.manager key
  cases howners : c.manager.ring.owners hashToInt key with
  | nil => exact Or.inl (put_unavailable hsteady (hlive.trans howners) value ttlSeconds)
  | cons target rest =>
    rw [howners] at hlive
    have htarget : target ∈ c.manager.ring.owners hashToInt key := by
      rw [howners]
      exact List.mem_cons_self
    obtain ⟨result, transport, hput⟩ := NodeTransport.exists_put (hanswers target htarget)
      (clock.after 3) key value ttlSeconds
    have hother : otherOwner (c.manager.recordHeartbeat (clock 5) target.nodeId) (clock 6)
        (c.manager.routeForKey hashToInt clock key) target = rest.head? := by
      refine otherOwner_eq hlive fun node hnode hne => ?_
      rw [ClusterManager.isAlive_recordHeartbeat_of_ne hne, hsteady node hnode]
    have hreplica : replicaWriteOf (c.manager.recordHeartbeat (clock 5) target.nodeId) (clock 6)
        (c.manager.routeForKey hashToInt clock key) target key value ttlSeconds =
          rest.map fun node => ⟨node, key, value, ttlSeconds⟩ := by
      rw [replicaWriteOf, hother, ClusterManager.liveOwners_tail hlive]
      cases rest.head? <;> rfl
    refine Or.inr ⟨target, rest, result, transport, rfl, hput, ?_⟩
    simp only [put, servedBy_eq_some hsteady hlive, hput, NodeTransport.ok_of_put hput, if_true,
      hreplica]

/-- What a delete does while the owners of its key are alive and answer: it loses copies at most,
and where it is acknowledged the owners have no copy left. -/
theorem delete_of_alive (hsteady : c.manager.Steady hashToInt clock (fun _ => true) key)
    (hanswers : ∀ node ∈ c.manager.ring.owners hashToInt key, c.transport.Answers node.nodeId) :
    ∃ r c', c.delete hashToInt clock key = (some r, c') ∧ OnlyForgets c c' ∧
      (r.ok = true → ∀ nodeId ∈ c.manager.ring.ownerIds hashToInt key,
        c'.transport.lookup nodeId key = none) := by
  have hlive := liveOwners_true hashToInt c.manager key
  cases howners : c.manager.ring.owners hashToInt key with
  | nil =>
    refine ⟨noLiveNodes, c, delete_unavailable hsteady (hlive.trans howners), .refl c, fun hok => ?_⟩
    cases hok
  | cons target rest =>
    rw [howners] at hlive hanswers
    by_cases hfound : (c.transport.lookup target.nodeId key).isSome
    · obtain ⟨transport, hdelete, hsame, hlookup⟩ :=
        delete_eq_of_found hsteady hlive hanswers hfound
      refine ⟨_, _, hdelete, onlyForgets_of_transport hsame fun n k entry hentry => ?_,
        fun _ nodeId howner => ?_⟩
      · rw [hlookup] at hentry
        split_ifs at hentry
        exact hentry
      · rw [ConsistentHashRing.ownerIds, howners] at howner
        exact (hlookup nodeId key).trans (if_pos ⟨rfl, howner⟩)
    · obtain ⟨message, transport, hdelete, hkeeps⟩ := delete_eq_of_missing hsteady hlive
        (hanswers target List.mem_cons_self) (Option.not_isSome_iff_eq_none.mp hfound)
      refine ⟨_, _, hdelete, onlyForgets_of_transport hkeeps.toSameNodes fun n k entry hentry => ?_,
        fun hok => ?_⟩
      · rw [hkeeps.lookup] at hentry
        exact hentry
      · cases hok

/-! ### The background loop after a client call -/

/-- After a client call, the background loop has at most replica writes to do: the copies of the
members are current, or one of these writes is about to replace them. -/
structure Replicating (hashToInt : String → ℕ) (told : KeyValueMap (Option V))
    (x : DistributedCacheCluster V × Time) : Prop where
  answers : ∀ nodeId ∈ x.1.manager.nodes, x.1.transport.Answers nodeId
  rebalances : ∀ task ∈ x.1.rebalances, task.Done
  writes : ∀ w ∈ x.1.replicaWrites, w.node.nodeId ∈ x.1.manager.nodes ∧
    w.node.nodeId ∈ x.1.manager.ring.ownerIds hashToInt w.key ∧
      told w.key = valueLeft w.value w.ttlSeconds
  copies : ∀ nodeId ∈ x.1.manager.nodes, ∀ key entry,
    x.1.transport.unexpired x.2 nodeId key = some entry →
      nodeId ∈ x.1.manager.ring.ownerIds hashToInt key ∧
        (told key = some entry.value ∨
          ∃ w ∈ x.1.replicaWrites, w.node.nodeId = nodeId ∧ w.key = key)

/-- Without replica writes to do, all copies are current. -/
theorem Replicating.current {x : DistributedCacheCluster V × Time} (h : Replicating hashToInt told x)
    (hidle : x.1.replicaWrites = []) : x.1.Current hashToInt x.1.manager.ring told x.2 := by
  intro nodeId hn key entry hentry
  obtain ⟨howner, hcopy⟩ := h.copies nodeId hn key entry hentry
  refine ⟨howner, hcopy.resolve_right ?_⟩
  rintro ⟨w, hw, -⟩
  rw [hidle] at hw
  cases hw

theorem Current.replicating (h : c.Current hashToInt c.manager.ring told t)
    (hanswers : ∀ nodeId ∈ c.manager.nodes, c.transport.Answers nodeId)
    (hquiescent : c.Quiescent) : Replicating hashToInt told (c, t) := by
  refine ⟨hanswers, hquiescent.rebalances, fun w hw => ?_, fun nodeId hn key entry hentry => ?_⟩
  · rw [hquiescent.replicaWrites] at hw
    cases hw
  · obtain ⟨howner, hcopy⟩ := h nodeId hn key entry hentry
    exact ⟨howner, Or.inl hcopy⟩

/-- A step of the background loop after a client call. -/
theorem Replicating.step {x x' : DistributedCacheCluster V × Time} {s : BackgroundStep}
    (h : Replicating hashToInt told x) (hs : Settles hashToInt x s x') :
    Replicating hashToInt told x' := by
  obtain ⟨c, t⟩ := x
  obtain ⟨c', t'⟩ := x'
  obtain ⟨⟨hsucceeds, -, hle, -⟩, hrun⟩ := hs
  dsimp only at hrun hle
  have hfront := frontKept_runBackground hrun
  have hanswers : ∀ nodeId ∈ c.manager.nodes, c'.transport.Answers nodeId := fun nodeId hn =>
    hfront.sameNodes.answers_iff.mpr (h.answers nodeId hn)
  rcases runBackground_of_done h.rebalances hrun with ⟨index, clock, outcome, rfl⟩ | ⟨id, now, rfl⟩
  · obtain ⟨w, hw, rfl⟩ := runBackground_replicate hrun
    obtain rfl : outcome = .carriedOut := hsucceeds
    have hmem := List.mem_of_getElem? hw
    obtain ⟨hmember, howner, htold⟩ := h.writes w hmem
    refine ⟨hanswers, h.rebalances, fun w' hw' => h.writes w' (List.mem_of_mem_eraseIdx hw'),
      fun nodeId hn key entry hentry => ?_⟩
    dsimp only at hn hentry ⊢
    by_cases hcell : nodeId = w.node.nodeId ∧ key = w.key
    · -- the write replaced the copy
      obtain ⟨rfl, rfl⟩ := hcell
      refine ⟨howner, Or.inl ?_⟩
      obtain ⟨result, transport, hput⟩ :=
        NodeTransport.exists_put (h.answers _ hmember) clock w.key w.value w.ttlSeconds
      have hlookup := (NodeTransport.unexpired_eq_some_iff.mp hentry).1
      rw [NodeTransport.limitedPut, hput] at hlookup
      dsimp only at hlookup
      rw [NodeTransport.lookup_put_self hput] at hlookup
      rw [htold, valueLeft_of_putEntry hlookup]
    · have hold : c.transport.unexpired t nodeId key = some entry :=
        NodeTransport.unexpired_of_lookup hentry hle fun hlookup =>
          (NodeTransport.lookup_of_limitedPut hlookup).resolve_right
            fun hnew => hcell ⟨hnew.1, hnew.2.1.symm⟩
      obtain ⟨howner', hcopy⟩ := h.copies nodeId hn key entry hold
      refine ⟨howner', hcopy.imp_right ?_⟩
      rintro ⟨w', hw', rfl, rfl⟩
      refine ⟨w', mem_eraseIdx_of_ne hw hw' ?_, rfl, rfl⟩
      rintro rfl
      exact hcell ⟨rfl, rfl⟩
  · obtain rfl := Option.some.inj hrun
    refine ⟨hanswers, h.rebalances, h.writes, fun nodeId hn key entry hentry => ?_⟩
    exact h.copies nodeId hn key entry (NodeTransport.unexpired_of_lookup hentry hle
      NodeTransport.lookup_of_cleanup)

/-! ### The background loop after a topology change -/

/-- A rebalance reads the snapshots of the members in `todo`: it has seen the copies of the
others, and all that it has seen is current. -/
structure Collecting (hashToInt : String → ℕ) (told : KeyValueMap (Option V))
    (previousRing : ConsistentHashRing) (c : DistributedCacheCluster V) (t : Time)
    (todo : List NodeConfig) (snapshots : Snapshots V) : Prop where
  current : c.Current hashToInt previousRing told t
  members : ∀ node ∈ todo, node.nodeId ∈ c.manager.nodes
  told : ∀ nodeId key entry, snapshots.seen key nodeId = some (some entry) →
    told key = some entry.value
  seen : ∀ nodeId ∈ c.manager.nodes, nodeId ∉ todo.map NodeConfig.nodeId → ∀ key entry,
    c.transport.unexpired t nodeId key = some entry → snapshots.Holds nodeId key

/-- A rebalance runs its calls: all copies are current, those that are not at owners are about to
be deleted, and what it puts is current. -/
structure Migrating (hashToInt : String → ℕ) (told : KeyValueMap (Option V))
    (c : DistributedCacheCluster V) (t : Time) (pending : List (MigrationTask V)) : Prop where
  copies : ∀ nodeId ∈ c.manager.nodes, ∀ key entry,
    c.transport.unexpired t nodeId key = some entry → told key = some entry.value ∧
      (nodeId ∈ c.manager.ring.ownerIds hashToInt key ∨
        ∃ node, .delete node key ∈ pending ∧ node.nodeId = nodeId)
  puts : ∀ node key value ttlSeconds, .put node key value ttlSeconds ∈ pending →
    node.nodeId ∈ c.manager.ring.ownerIds hashToInt key ∧ told key = some value

/-- What holds of a rebalance from its submission to its end. -/
def PhaseSound (hashToInt : String → ℕ) (told : KeyValueMap (Option V))
    (previousRing : ConsistentHashRing) (c : DistributedCacheCluster V) (t : Time) :
    RebalancePhase V → Prop
  | .submitted => c.Current hashToInt previousRing told t
  | .collecting ring todo snapshots =>
    ring = c.manager.ring ∧ Collecting hashToInt told previousRing c t todo snapshots
  | .migrating _ pending => Migrating hashToInt told c t pending

/-- After a topology change the background loop has the new rebalance to do, number `index`. -/
structure Moving (hashToInt : String → ℕ) (ids : Set String) (told : KeyValueMap (Option V))
    (previousRing : ConsistentHashRing) (index : ℕ) (x : DistributedCacheCluster V × Time) :
    Prop where
  manager : x.1.manager.Reachable hashToInt ids
  noCollision : NoCollision hashToInt x.1.manager.ring.replicas ids
  answers : ∀ nodeId ∈ x.1.manager.nodes, x.1.transport.Answers nodeId
  replicaWrites : x.1.replicaWrites = []
  others : ∀ i task, x.1.rebalances[i]? = some task → i ≠ index → task.Done
  task : ∃ task, x.1.rebalances[index]? = some task ∧ task.previousRing = previousRing ∧
    PhaseSound hashToInt told previousRing x.1 x.2 task.phase

section Phases

variable {previousRing : ConsistentHashRing} {todo : List NodeConfig} {snapshots : Snapshots V}
  {pending : List (MigrationTask V)} {c' : DistributedCacheCluster V}

/-- Copies are lost at most, while the rebalance waits. -/
theorem PhaseSound.mono {phase : RebalancePhase V}
    (h : PhaseSound hashToInt told previousRing c t phase) (hle : t ≤ t')
    (hmanager : c'.manager = c.manager)
    (hlookup : ∀ n k entry, c'.transport.lookup n k = some entry →
      c.transport.lookup n k = some entry) :
    PhaseSound hashToInt told previousRing c' t' phase := by
  have hnodes : c'.manager.nodes = c.manager.nodes := by rw [hmanager]
  cases phase with
  | submitted => exact Current.mono h hle hnodes hlookup
  | collecting ring todo snapshots =>
    obtain ⟨hring, h⟩ := h
    refine ⟨hring.trans (by rw [hmanager]), h.current.mono hle hnodes hlookup, ?_, h.told, ?_⟩
    · rw [hnodes]
      exact h.members
    · intro nodeId hn hdone key entry hentry
      rw [hnodes] at hn
      exact h.seen nodeId hn hdone key entry
        (NodeTransport.unexpired_of_lookup hentry hle (hlookup nodeId key entry))
  | migrating ring pending =>
    refine ⟨fun nodeId hn key entry hentry => ?_, ?_⟩
    · rw [hnodes] at hn
      rw [hmanager]
      exact Migrating.copies h nodeId hn key entry
        (NodeTransport.unexpired_of_lookup hentry hle (hlookup nodeId key entry))
    · rw [hmanager]
      exact Migrating.puts h

theorem Collecting.begin (h : c.Current hashToInt previousRing told t)
    (hcoherent : c.manager.Coherent hashToInt) :
    Collecting hashToInt told previousRing c t c.manager.getAllNodes .empty := by
  refine ⟨h, fun node hnode => ?_, fun nodeId key entry hseen => ?_,
    fun nodeId hn hdone => absurd ?_ hdone⟩
  · rw [OrderedDict.mem_def, ← hcoherent.map_nodeId_getAllNodes]
    exact List.mem_map_of_mem hnode
  · cases hseen
  · rw [hcoherent.map_nodeId_getAllNodes]
    exact hn

/-- The snapshot of a node shows its copies. -/
theorem Collecting.snapshot {node : NodeConfig}
    (h : Collecting hashToInt told previousRing c t (node :: todo) snapshots) (hle : t ≤ t')
    {now : Time} (hnow : t ≤ now ∧ now ≤ t') {outcome : CallOutcome}
    {entries : OrderedDict String (CacheEntry V)} {transport : NodeTransport V}
    (hsnap : c.transport.trySnapshot now outcome node = some (entries, transport)) :
    Collecting hashToInt told previousRing { c with transport := transport } t' todo
      (snapshots.set node.nodeId entries) := by
  obtain ⟨hshown, -⟩ := NodeTransport.trySnapshot_eq_unexpired hsnap
  obtain ⟨-, hlookup⟩ := NodeTransport.lookup_of_trySnapshot hsnap
  have hmember := h.members node List.mem_cons_self
  refine ⟨h.current.mono hle rfl hlookup, fun other hother => h.members other
    (List.mem_cons_of_mem _ hother), fun nodeId key entry hseen => ?_,
    fun nodeId hn hdone key entry hentry => ?_⟩
  · rw [Snapshots.seen, OrderedDict.get?_set] at hseen
    split_ifs at hseen with hnode
    · rw [Option.map_some, hshown] at hseen
      have hcopy := NodeTransport.unexpired_of_lookup (Option.some.inj hseen) hnow.1 id
      exact (h.current _ hmember key entry hcopy).2
    · exact h.told nodeId key entry hseen
  · rw [Snapshots.Holds, OrderedDict.get?_set]
    by_cases hnode : nodeId = node.nodeId
    · subst hnode
      have hcopy : c.transport.unexpired now node.nodeId key = some entry :=
        NodeTransport.unexpired_of_lookup hentry hnow.2 (hlookup _ key entry)
      rw [← hshown] at hcopy
      exact ⟨entries, if_pos rfl, OrderedDict.mem_iff_exists_get?.mpr ⟨entry, hcopy⟩⟩
    · rw [if_neg hnode]
      refine h.seen nodeId hn ?_ key entry
        (NodeTransport.unexpired_of_lookup hentry hle (hlookup nodeId key entry))
      rw [List.map_cons, List.mem_cons, not_or]
      exact ⟨hnode, hdone⟩

/-- An entry that has not expired has some lifetime left. -/
private theorem isSome_migratedTtl {entry : CacheEntry V} {now : Time}
    (h : entry.isExpired now = false) : (migratedTtl entry.expiresAt now).isSome := by
  rw [CacheEntry.isExpired] at h
  cases hexpires : entry.expiresAt with
  | none => rfl
  | some expiresAt =>
    rw [hexpires] at h
    have hleft : 0 < expiresAt - now := sub_pos.mpr (not_le.mp (of_decide_eq_false h))
    have hnot : ¬max (expiresAt - now) 0 ≤ 0 := not_le.mpr (lt_max_of_lt_left hleft)
    simp only [migratedTtl, if_neg hnot, Option.isSome_some]

/-- A rebalance that plans in time deletes all copies that are not at owners any more, and puts
what it has seen. -/
theorem Collecting.plan (h : Collecting hashToInt told previousRing c t [] snapshots)
    (hmanager : c.manager.Reachable hashToInt ids)
    (hcf : NoCollision hashToInt c.manager.ring.replicas ids) (hle : t ≤ t') {now : Time}
    (hlive : ∀ nodeId key entry, snapshots.seen key nodeId = some (some entry) →
      entry.isExpired now = false)
    {task : RebalanceTask V} (htask : task.previousRing = previousRing) (clock : String → Clock) :
    Migrating hashToInt told c t'
      ((c.planInput task c.manager.ring snapshots now clock).plan hashToInt task.change) := by
  have hcoherent := hmanager.coherent
  have hnodup : (c.manager.getAllNodes.map NodeConfig.nodeId).Nodup := by
    rw [hcoherent.map_nodeId_getAllNodes]
    exact c.manager.nodes.keys_nodup
  let x := c.planInput task c.manager.ring snapshots now clock
  have hprevious : x.previousRing = previousRing := htask
  refine ⟨fun nodeId hn key entry hentry => ?_, fun node key value ttlSeconds hput => ?_⟩
  · have hcopy : c.transport.unexpired t nodeId key = some entry :=
      NodeTransport.unexpired_of_lookup hentry hle id
    obtain ⟨hold, htold⟩ := h.current nodeId hn key entry hcopy
    have hholds : x.snapshots.Holds nodeId key := h.seen nodeId hn List.not_mem_nil key entry hcopy
    refine ⟨htold, or_iff_not_imp_left.mpr fun hnew => ?_⟩
    -- the owners of the key change, since the node is not an owner any more
    have hmoves : x.OwnersChange hashToInt key := by
      rw [PlanInput.ownersChange_iff, hprevious]
      refine ⟨⟨nodeId, ConsistentHashRing.mem_ownerSet.mpr hold⟩, ?_, fun heq => hnew ?_⟩
      · obtain ⟨p, q, hpair⟩ :=
          (hmanager.fullyPlaced hcf).exists_primary (hcoherent.mem_ring_iff.mpr hn) key
        rw [ConsistentHashRing.ownerSet_nonempty]
        exact Option.isSome_iff_exists.mpr ⟨p, congrArg Prod.fst hpair⟩
      · have hnow : nodeId ∈ x.currentRing.ownerSet hashToInt key := by
          rw [← heq]
          exact ConsistentHashRing.mem_ownerSet.mpr hold
        exact ConsistentHashRing.mem_ownerSet.mp hnow
    have hsome : (x.source hashToInt task.change key).isSome := PlanInput.isSome_source hholds
    obtain ⟨source, hsource⟩ := Option.isSome_iff_exists.mp hsome
    obtain ⟨id, hseen⟩ := PlanInput.source_eq_some hsource
    have hmigration : (x.migration hashToInt task.change key).isSome := by
      rw [PlanInput.migration, if_pos hmoves, hsource, Option.bind_some, Option.isSome_map]
      exact isSome_migratedTtl (hlive id key source hseen)
    obtain ⟨node, hnode, rfl⟩ : ∃ node ∈ c.manager.getAllNodes, node.nodeId = nodeId := by
      rw [OrderedDict.mem_def, ← hcoherent.map_nodeId_getAllNodes] at hn
      exact List.mem_map.mp hn
    exact ⟨node, PlanInput.delete_mem_plan_iff.mpr ⟨mem_storedKeys.mpr ⟨_, hholds⟩, node.nodeId,
      hmigration, hnew, (get?_nodesById hnodup).mpr ⟨hnode, rfl⟩, hholds⟩, rfl⟩
  · obtain ⟨-, entry, nodeId, hmigration, rfl, howner, hnode, -⟩ := PlanInput.put_mem_plan_iff.mp hput
    obtain ⟨-, rfl⟩ := (get?_nodesById hnodup).mp hnode
    refine ⟨howner, ?_⟩
    rw [PlanInput.migration] at hmigration
    split_ifs at hmigration
    obtain ⟨source, hsource, hentry⟩ := Option.bind_eq_some_iff.mp hmigration
    obtain ⟨ttl, -, heq⟩ := Option.map_eq_some_iff.mp hentry
    obtain ⟨rfl, -⟩ := Prod.mk.inj heq
    obtain ⟨id, hseen⟩ := PlanInput.source_eq_some hsource
    exact h.told id key source hseen

/-- A scheduled call that is carried out. -/
theorem Migrating.migrate (h : Migrating hashToInt told c t pending) (hle : t ≤ t')
    (hanswers : ∀ nodeId ∈ c.manager.nodes, c.transport.Answers nodeId) {i : ℕ}
    {call : MigrationTask V} (hcall : pending[i]? = some call) (clock : Clock) :
    Migrating hashToInt told
      { c with transport := c.transport.runTask clock .carriedOut call } t' (pending.eraseIdx i) := by
  have hsub : ∀ task ∈ pending.eraseIdx i, task ∈ pending := fun task => List.mem_of_mem_eraseIdx
  refine ⟨fun nodeId hn key entry hentry => ?_, fun node key value ttlSeconds hput =>
    h.puts node key value ttlSeconds (hsub _ hput)⟩
  dsimp only at hn hentry ⊢
  cases call with
  | put node k value ttlSeconds =>
    have hfresh := h.puts node k value ttlSeconds (List.mem_of_getElem? hcall)
    rcases NodeTransport.lookup_of_limitedPut (NodeTransport.unexpired_eq_some_iff.mp hentry).1 with
      hold | ⟨rfl, rfl, hnew, -⟩
    · obtain ⟨htold, hplace⟩ := h.copies nodeId hn key entry
        (NodeTransport.unexpired_of_lookup hentry hle fun _ => hold)
      refine ⟨htold, hplace.imp_right ?_⟩
      rintro ⟨other, hdelete, rfl⟩
      exact ⟨other, mem_eraseIdx_of_ne hcall hdelete (by rintro ⟨⟩), rfl⟩
    · rw [CacheStore.value_of_putEntry hnew]
      exact ⟨hfresh.2, Or.inl hfresh.1⟩
  | delete node k =>
    have hold := NodeTransport.unexpired_of_lookup hentry hle NodeTransport.lookup_of_limitedDelete
    obtain ⟨htold, hplace⟩ := h.copies nodeId hn key entry hold
    refine ⟨htold, hplace.imp_right ?_⟩
    rintro ⟨other, hdelete, rfl⟩
    refine ⟨other, mem_eraseIdx_of_ne hcall hdelete ?_, rfl⟩
    intro heq
    obtain ⟨rfl, rfl⟩ := MigrationTask.delete.inj heq
    -- the copy is gone after its delete
    rcases NodeTransport.limitedDelete_eq c.transport clock .carriedOut other key with
      ⟨-, -, hwrites⟩ | ⟨hfails, -⟩
    · have hlookup := (NodeTransport.unexpired_eq_some_iff.mp hentry).1
      change (c.transport.limitedDelete clock .carriedOut other key).lookup _ _ = _ at hlookup
      rw [hwrites.lookup, if_pos ⟨rfl, rfl⟩] at hlookup
      cases hlookup
    · exact hfails ⟨rfl, hanswers _ hn⟩

end Phases

/-- The rebalance that a step works on is the new one. -/
private theorem Moving.eq_index {previousRing : ConsistentHashRing} {index i : ℕ}
    {x : DistributedCacheCluster V × Time} (h : Moving hashToInt ids told previousRing index x)
    {task : RebalanceTask V} (htask : x.1.rebalances[i]? = some task) (hdone : ¬task.Done) :
    i = index ∧ task.previousRing = previousRing ∧
      PhaseSound hashToInt told previousRing x.1 x.2 task.phase := by
  have hi : i = index := by
    by_contra hne
    exact hdone (h.others i task htask hne)
  subst hi
  obtain ⟨task', htask', hprevious, hphase⟩ := h.task
  obtain rfl := Option.some.inj (htask.symm.trans htask')
  exact ⟨rfl, hprevious, hphase⟩

/-- The new rebalance has gone on to another phase. -/
private theorem Moving.setPhase {previousRing : ConsistentHashRing} {index : ℕ}
    {x : DistributedCacheCluster V × Time} (h : Moving hashToInt ids told previousRing index x)
    {task : RebalanceTask V} (htask : x.1.rebalances[index]? = some task)
    (hprevious : task.previousRing = previousRing) {transport : NodeTransport V}
    (hsame : x.1.transport.SameNodes transport) {phase : RebalancePhase V} {t' : Time}
    (hphase : PhaseSound hashToInt told previousRing { x.1 with transport := transport } t' phase) :
    Moving hashToInt ids told previousRing index
      ({ x.1 with transport := transport }.setPhase index task phase, t') := by
  have hlt := (List.getElem?_eq_some_iff.mp htask).1
  refine ⟨h.manager, h.noCollision, fun nodeId hn => hsame.answers_iff.mpr (h.answers nodeId hn),
    h.replicaWrites, fun i task' htask' hne => ?_, ⟨{ task with phase := phase }, ?_, hprevious, ?_⟩⟩
  · refine h.others i task' ?_ hne
    rw [← htask']
    exact (List.getElem?_set_ne hne.symm).symm
  · exact List.getElem?_set_self hlt
  · exact hphase.mono le_rfl rfl fun _ _ _ => id

/-- A step of the background loop after a topology change. -/
theorem Moving.step {previousRing : ConsistentHashRing} {index : ℕ}
    {x x' : DistributedCacheCluster V × Time} {s : BackgroundStep}
    (h : Moving hashToInt ids told previousRing index x) (hs : Settles hashToInt x s x') :
    Moving hashToInt ids told previousRing index x' := by
  obtain ⟨c, t⟩ := x
  obtain ⟨c', t'⟩ := x'
  obtain ⟨⟨hsucceeds, htime, hle, hwithin⟩, hrun⟩ := hs
  dsimp only at hsucceeds htime hle hwithin hrun
  have hnotDone : ∀ {task : RebalanceTask V} {phase : RebalancePhase V}, task.phase = phase →
      (∀ ring, phase ≠ .migrating ring []) → ¬task.Done := by
    intro task phase hphase hne hdone
    obtain ⟨ring, heq⟩ := done_iff.mp hdone
    exact hne ring (hphase.symm.trans heq)
  cases s with
  | replicate i clock outcome =>
    obtain ⟨w, hw, -⟩ := runBackground_replicate hrun
    have hnone : c.replicaWrites = [] := h.replicaWrites
    rw [hnone] at hw
    cases hw
  | begin i =>
    obtain ⟨task, htask, hphase, rfl⟩ := runBackground_begin hrun
    obtain ⟨rfl, hprevious, hsound⟩ := h.eq_index htask (hnotDone hphase (by simp))
    rw [hphase] at hsound
    have hcurrent : c.Current hashToInt previousRing told t' := hsound.mono hle rfl fun _ _ _ => id
    exact h.setPhase htask hprevious (.refl _) ⟨rfl, .begin hcurrent h.manager.coherent⟩
  | snapshot i now outcome =>
    obtain ⟨task, ring, node, todo, snapshots, htask, hphase, hcase⟩ := runBackground_snapshot hrun
    obtain rfl : outcome = .carriedOut := hsucceeds
    obtain ⟨rfl, hprevious, hsound⟩ := h.eq_index htask (hnotDone hphase (by simp))
    rw [hphase] at hsound
    obtain ⟨rfl, hcollecting⟩ := hsound
    rcases hcase with ⟨hfails, -⟩ | ⟨entries, transport, hsnap, rfl⟩
    · -- the snapshot of a member does not fail
      obtain ⟨rt, hrt⟩ := Option.isSome_iff_exists.mp
        (h.answers _ (hcollecting.members node List.mem_cons_self))
      rw [NodeTransport.trySnapshot, NodeTransport.snapshot, hrt] at hfails
      cases hfails
    · exact h.setPhase htask hprevious (NodeTransport.sameNodes_trySnapshot hsnap)
        ⟨rfl, hcollecting.snapshot hle hwithin hsnap⟩
  | plan i now clock =>
    obtain ⟨task, ring, snapshots, htask, hphase, rfl⟩ := runBackground_plan hrun
    obtain ⟨rfl, hprevious, hsound⟩ := h.eq_index htask (hnotDone hphase (by simp))
    rw [hphase] at hsound
    obtain ⟨rfl, hcollecting⟩ := hsound
    exact h.setPhase htask hprevious (.refl _) (hcollecting.plan h.manager h.noCollision hle
      (htime task _ snapshots htask hphase) hprevious clock)
  | migrate i j clock outcome =>
    obtain ⟨task, ring, pending, call, htask, hphase, hcall, rfl⟩ := runBackground_migrate hrun
    obtain rfl : outcome = .carriedOut := hsucceeds
    obtain ⟨rfl, hprevious, hsound⟩ := h.eq_index htask (hnotDone hphase (by
      rintro ring' heq
      obtain ⟨-, rfl⟩ := RebalancePhase.migrating.inj heq
      cases hcall))
    rw [hphase] at hsound
    have hmigrating : Migrating hashToInt told c t pending := hsound
    exact h.setPhase htask hprevious (NodeTransport.sameNodes_runTask _ _ _ _)
      (hmigrating.migrate hle h.answers hcall clock)
  | cleanup nodeId now =>
    obtain rfl := Option.some.inj hrun
    obtain ⟨task, htask, hprevious, hsound⟩ := h.task
    exact ⟨h.manager, h.noCollision, fun id hid =>
      (c.transport.sameNodes_cleanup now nodeId).answers_iff.mpr (h.answers id hid),
      h.replicaWrites, h.others, task, htask, hprevious,
      hsound.mono hle rfl fun _ _ _ => NodeTransport.lookup_of_cleanup⟩

/-- Once the rebalance has ended, all copies are current. -/
theorem Moving.current {previousRing : ConsistentHashRing} {index : ℕ}
    {x : DistributedCacheCluster V × Time} (h : Moving hashToInt ids told previousRing index x)
    (hquiescent : x.1.Quiescent) : x.1.Current hashToInt x.1.manager.ring told x.2 := by
  obtain ⟨task, htask, -, hsound⟩ := h.task
  obtain ⟨ring, hphase⟩ := done_iff.mp (hquiescent.rebalances task (List.mem_of_getElem? htask))
  rw [hphase] at hsound
  intro nodeId hn key entry hentry
  obtain ⟨htold, hplace⟩ := Migrating.copies hsound nodeId hn key entry hentry
  refine ⟨hplace.resolve_right ?_, htold⟩
  rintro ⟨node, hdelete, -⟩
  cases hdelete

/-- A get about a key whose owners answer does not raise: it finds a value, or it finds none or no
owner that is alive. -/
theorem get_of_answers
    (hanswers : ∀ node ∈ c.manager.ring.owners hashToInt key, c.transport.Answers node.nodeId) :
    ∃ r, (c.get hashToInt clock key).1 = some r ∧
      (r.ok = true ∧ r.value.isSome ∨
        (r.Is .missing ∨ r.Is .unavailable) ∧ r.value = none) := by
  have hraises : ∀ {transport : NodeTransport V} {clock : Clock} {node : NodeConfig},
      transport.Answers node.nodeId → transport.get clock node key ≠ none := by
    intro transport clock node hanswer hnone
    obtain ⟨rt, hrt⟩ := Option.isSome_iff_exists.mp hanswer
    rw [NodeTransport.get, hrt] at hnone
    cases hnone
  rw [get]
  dsimp only
  split
  · exact ⟨_, rfl, Or.inr ⟨Or.inr ⟨rfl, rfl⟩, rfl⟩⟩
  · rename_i target hserved
    split
    · rename_i hnone
      exact absurd hnone (hraises (hanswers target (ClusterManager.mem_owners_of_servedBy hserved)))
    · exact ⟨_, rfl, Or.inl ⟨rfl, rfl⟩⟩
    · rename_i hmissing
      split
      · exact ⟨_, rfl, Or.inr ⟨Or.inl ⟨rfl, rfl⟩, rfl⟩⟩
      · rename_i replica hother
        have hreplica := (Option.filter_eq_some_iff.mp hother).1
        rw [ClusterManager.replica_routeForKey] at hreplica
        have howner : replica ∈ c.manager.ring.owners hashToInt key :=
          (ConsistentHashRing.mem_owners hashToInt).mpr (Or.inr hreplica)
        split
        · rename_i hnone
          have hanswer := (NodeTransport.sameNodes_get hmissing).answers_iff.mpr
            (hanswers replica howner)
          exact absurd hnone (hraises hanswer)
        · exact ⟨_, rfl, Or.inl ⟨rfl, rfl⟩⟩
        · exact ⟨_, rfl, Or.inr ⟨Or.inl ⟨rfl, rfl⟩, rfl⟩⟩

end DistributedCacheCluster

/-! ### Histories -/

namespace Remembered

variable {x x' : Remembered V}

namespace Sound

/-- The owners of a key are members, and answer. -/
theorem answers_owner (h : x.Sound hashToInt ids) (key : String) :
    ∀ node ∈ x.cluster.manager.ring.owners hashToInt key,
      x.cluster.transport.Answers node.nodeId := fun node hnode =>
  h.answers _ (OrderedDict.mem_iff_exists_get?.mpr
    ⟨node, h.manager.coherent.get?_nodes_of_mem_owners hnode⟩)

/-- A client call after which the background loop has at most replica writes to do. -/
theorem of_replicating (h : x.Sound hashToInt ids) {c : DistributedCacheCluster V} {t : Time}
    {background : List BackgroundStep} (hmanager : HeartbeatOnly x.cluster.manager c.manager)
    (hreplicating : Replicating hashToInt x'.told (c, t))
    (hrun : Run (Settles hashToInt) (c, t) background (x'.cluster, x'.now))
    (hquiescent : x'.cluster.Quiescent) : x'.Sound hashToInt ids := by
  obtain ⟨hend, hkept⟩ := hrun.invariant
    (I := fun y => Replicating hashToInt x'.told y ∧ y.1.manager = c.manager)
    (fun _ _ _ hy hs => ⟨hy.1.step hs, (frontKept_runBackground hs.2).manager.trans hy.2⟩)
    ⟨hreplicating, rfl⟩
  dsimp only at hend hkept
  refine ⟨?_, ?_, hend.answers, hquiescent, hend.current hquiescent.replicaWrites⟩
  · rw [hkept]
    exact HeartbeatOnly.reachable hmanager h.manager
  · rw [hkept, hmanager.ring]
    exact h.noCollision

/-- A client call that loses copies at most, and tells nothing new. -/
theorem of_onlyForgets (h : x.Sound hashToInt ids) {c : DistributedCacheCluster V} {t : Time}
    {background : List BackgroundStep} (hforgets : OnlyForgets x.cluster c) (hle : x.now ≤ t)
    (htold : c.Current hashToInt x.cluster.manager.ring x.told t →
      c.Current hashToInt x.cluster.manager.ring x'.told t)
    (hrun : Run (Settles hashToInt) (c, t) background (x'.cluster, x'.now))
    (hquiescent : x'.cluster.Quiescent) : x'.Sound hashToInt ids := by
  have hcurrent : c.Current hashToInt c.manager.ring x'.told t := by
    rw [hforgets.manager.ring]
    exact htold (h.current.mono hle hforgets.manager.nodes hforgets.lookup)
  refine h.of_replicating hforgets.manager (hcurrent.replicating (fun nodeId hn => ?_) ?_) hrun
    hquiescent
  · rw [hforgets.manager.nodes] at hn
    exact hforgets.sameNodes.answers_iff.mpr (h.answers nodeId hn)
  · refine ⟨hforgets.replicaWrites.trans h.quiescent.replicaWrites, ?_⟩
    rw [hforgets.rebalances]
    exact h.quiescent.rebalances

/-- A topology change. -/
theorem of_moving {c : DistributedCacheCluster V} {t : Time} {background : List BackgroundStep}
    {previousRing : ConsistentHashRing} {index : ℕ}
    (hmoving : Moving hashToInt ids x'.told previousRing index (c, t))
    (hrun : Run (Settles hashToInt) (c, t) background (x'.cluster, x'.now))
    (hquiescent : x'.cluster.Quiescent) : x'.Sound hashToInt ids := by
  have hend := hrun.invariant (I := Moving hashToInt ids x'.told previousRing index)
    (fun _ _ _ hy hs => hy.step hs) hmoving
  exact ⟨hend.manager, hend.noCollision, hend.answers, hquiescent, hend.current hquiescent⟩

private theorem put (h : x.Sound hashToInt ids) {clock : Clock} {key : String} {value : Option V}
    {ttlSeconds : Option Time} {t : Time} {background : List BackgroundStep}
    (hsteady : x.cluster.manager.Steady hashToInt clock (fun _ => true) key) (hle : x.now ≤ t)
    (hrun : Run (Settles hashToInt) ((x.cluster.put hashToInt clock key value ttlSeconds).2, t)
      background (x'.cluster, x'.now))
    (hquiescent : x'.cluster.Quiescent)
    (htold : x'.told = (Call.put key value ttlSeconds).told
      (x.cluster.put hashToInt clock key value ttlSeconds).1 x.told) : x'.Sound hashToInt ids := by
  rcases put_of_alive hsteady (h.answers_owner key) value ttlSeconds with
    hput | ⟨target, rest, result, transport, howners, htransport, hput⟩
  · rw [hput] at hrun htold
    exact h.of_onlyForgets (.refl _) hle (fun hcurrent => htold ▸ hcurrent) hrun hquiescent
  · rw [hput] at hrun htold
    have hmanager : HeartbeatOnly x.cluster.manager
        (x.cluster.manager.recordHeartbeat (clock 5) target.nodeId) := Or.inr ⟨_, _, rfl⟩
    generalize x.cluster.manager.recordHeartbeat (clock 5) target.nodeId = manager
      at hrun hmanager
    have hkey : x'.told key = valueLeft value ttlSeconds := by
      rw [htold]
      exact Function.update_self ..
    have hother : ∀ k, k ≠ key → x'.told k = x.told k := by
      intro k hk
      rw [htold]
      exact Function.update_of_ne hk _ _
    have hids : x.cluster.manager.ring.ownerIds hashToInt key =
        target.nodeId :: rest.map NodeConfig.nodeId := by
      rw [ConsistentHashRing.ownerIds, howners, List.map_cons]
    have hsame := NodeTransport.sameNodes_put htransport
    refine h.of_replicating hmanager ?_ hrun hquiescent
    refine ⟨fun nodeId hn => ?_, h.quiescent.rebalances, fun w hw => ?_,
      fun nodeId hn k entry hentry => ?_⟩
    · dsimp only at hn
      rw [hmanager.nodes] at hn
      exact hsame.answers_iff.mpr (h.answers nodeId hn)
    · dsimp only at hw ⊢
      rw [h.quiescent.replicaWrites, List.nil_append] at hw
      obtain ⟨node, hnode, rfl⟩ := List.mem_map.mp hw
      rw [hmanager.nodes, hmanager.ring]
      have howner : node ∈ x.cluster.manager.ring.owners hashToInt key := by
        rw [howners]
        exact List.mem_cons_of_mem _ hnode
      exact ⟨OrderedDict.mem_iff_exists_get?.mpr
        ⟨node, h.manager.coherent.get?_nodes_of_mem_owners howner⟩,
        (ConsistentHashRing.mem_ownerIds hashToInt).mpr ⟨node, howner, rfl⟩, hkey⟩
    · dsimp only at hn hentry ⊢
      rw [hmanager.nodes] at hn
      rw [hmanager.ring]
      have hold (hlookup : x.cluster.transport.lookup nodeId k = some entry) :
          nodeId ∈ x.cluster.manager.ring.ownerIds hashToInt k ∧ x.told k = some entry.value :=
        h.current nodeId hn k entry (NodeTransport.unexpired_of_lookup hentry hle fun _ => hlookup)
      have hlookup := (NodeTransport.unexpired_eq_some_iff.mp hentry).1
      by_cases hk : k = key
      · subst hk
        by_cases hn' : nodeId = target.nodeId
        · -- the first owner has the new value
          subst hn'
          have hnew := (NodeTransport.lookup_put_self htransport).symm.trans hlookup
          refine ⟨?_, Or.inl (hkey.trans (valueLeft_of_putEntry hnew))⟩
          rw [hids]
          exact List.mem_cons_self
        · -- a write to the second one is submitted
          have howner := (hold ((NodeTransport.lookup_of_put htransport hlookup).resolve_right
            fun hnew => hn' hnew.1)).1
          refine ⟨howner, Or.inr ?_⟩
          rw [hids, List.mem_cons] at howner
          obtain ⟨node, hnode, rfl⟩ := List.mem_map.mp (howner.resolve_left hn')
          exact ⟨_, List.mem_append_right _ (List.mem_map_of_mem hnode), rfl, rfl⟩
      · obtain ⟨howner, hcopy⟩ := hold
          ((NodeTransport.lookup_of_put htransport hlookup).resolve_right fun hnew => hk hnew.2.1.symm)
        exact ⟨howner, Or.inl ((hother k hk).trans hcopy)⟩

private theorem delete (h : x.Sound hashToInt ids) {clock : Clock} {key : String} {t : Time}
    {background : List BackgroundStep}
    (hsteady : x.cluster.manager.Steady hashToInt clock (fun _ => true) key) (hle : x.now ≤ t)
    (hrun : Run (Settles hashToInt) ((x.cluster.delete hashToInt clock key).2, t) background
      (x'.cluster, x'.now))
    (hquiescent : x'.cluster.Quiescent)
    (htold : x'.told = (Call.delete key).told (x.cluster.delete hashToInt clock key).1 x.told) :
    x'.Sound hashToInt ids := by
  obtain ⟨r, c, hdelete, hforgets, herased⟩ := delete_of_alive hsteady (h.answers_owner key)
  rw [hdelete] at hrun htold
  refine h.of_onlyForgets hforgets hle (fun hcurrent nodeId hn k entry hentry => ?_) hrun hquiescent
  obtain ⟨howner, hcopy⟩ := hcurrent nodeId hn k entry hentry
  refine ⟨howner, ?_⟩
  rw [htold, Call.told, Option.any_some]
  split_ifs with hok
  · have hk : k ≠ key := by
      rintro rfl
      have hnone := herased hok nodeId howner
      rw [(NodeTransport.unexpired_eq_some_iff.mp hentry).1] at hnone
      cases hnone
    exact (Function.update_of_ne hk _ _).trans hcopy
  · exact hcopy

/-- All rebalances but the new one are done. -/
private theorem done_of_ne (h : x.Sound hashToInt ids) {new task : RebalanceTask V} {i : ℕ}
    (htask : (x.cluster.rebalances ++ [new])[i]? = some task)
    (hne : i ≠ x.cluster.rebalances.length) : task.Done := by
  have hlt := (List.getElem?_eq_some_iff.mp htask).1
  rw [List.length_append, List.length_singleton] at hlt
  rw [List.getElem?_append_left (by omega)] at htask
  exact h.quiescent.rebalances task (List.mem_of_getElem? htask)

private theorem addNode (h : x.Sound hashToInt ids) {clock : Clock} {node : NodeConfig}
    {runtime : Option (NodeRuntime V)} {t : Time} {background : List BackgroundStep}
    (hnew : node.nodeId ∉ x.cluster.manager.nodes) (hid : node.nodeId ∈ ids)
    (hanswers : (x.cluster.transport.registerNode (clock 0) node runtime).Answers node.nodeId)
    (hwithout : ∀ key, x.cluster.JoinsWithout clock key (.addNode node runtime)) (hle : x.now ≤ t)
    (hrun : Run (Settles hashToInt)
      ((x.cluster.serve hashToInt clock (.addNode node runtime)).2, t) background
        (x'.cluster, x'.now))
    (hquiescent : x'.cluster.Quiescent) (htold : x'.told = x.told) : x'.Sound hashToInt ids := by
  rw [addNode_eq hnew] at hrun
  have hmoving : Moving hashToInt ids x'.told x.cluster.manager.ring x.cluster.rebalances.length
      (startRebalanceTask
        { x.cluster with
          transport := x.cluster.transport.registerNode (clock 0) node runtime
          manager := x.cluster.manager.addNode hashToInt (clock 1) node }
        .add x.cluster.manager.ring, t) := by
    refine ⟨.addNode _ _ hid h.manager, h.noCollision, fun nodeId hn => ?_,
      h.quiescent.replicaWrites, fun i task htask hne => ?_,
      ⟨⟨.add, x.cluster.manager.ring, .submitted⟩, List.getElem?_concat_length, rfl,
        fun nodeId hn key entry hentry => ?_⟩⟩
    · rcases OrderedDict.mem_set.mp hn with rfl | hn
      · exact hanswers
      · have hne : nodeId ≠ node.nodeId := fun heq => hnew (heq ▸ hn)
        exact (NodeTransport.answers_registerNode_of_ne hne).mpr (h.answers nodeId hn)
    · exact h.done_of_ne htask hne
    · obtain ⟨hlookup, -⟩ := NodeTransport.unexpired_eq_some_iff.mp hentry
      rw [htold]
      rcases OrderedDict.mem_set.mp hn with rfl | hn
      · have hnone : (x.cluster.transport.registerNode (clock 0) node runtime).lookup node.nodeId
            key = none := hwithout key
        cases hnone.symm.trans hlookup
      · have hne : nodeId ≠ node.nodeId := fun heq => hnew (heq ▸ hn)
        refine h.current nodeId hn key entry (NodeTransport.unexpired_of_lookup hentry hle fun _ => ?_)
        rw [← NodeTransport.lookup_registerNode_of_ne hne]
        exact hlookup
  exact of_moving hmoving hrun hquiescent

private theorem removeNode (h : x.Sound hashToInt ids) {clock : Clock} {nodeId : String} {t : Time}
    {background : List BackgroundStep} (hmember : nodeId ∈ x.cluster.manager.nodes)
    (hle : x.now ≤ t)
    (hrun : Run (Settles hashToInt)
      ((x.cluster.serve hashToInt clock (.removeNode nodeId)).2, t) background
        (x'.cluster, x'.now))
    (hquiescent : x'.cluster.Quiescent) (htold : x'.told = x.told) : x'.Sound hashToInt ids := by
  rw [removeNode_eq hmember] at hrun
  have hmoving : Moving hashToInt ids x'.told x.cluster.manager.ring x.cluster.rebalances.length
      (startRebalanceTask { x.cluster with manager := x.cluster.manager.removeNode nodeId }
        .remove x.cluster.manager.ring, t) := by
    refine ⟨.removeNode nodeId h.manager, h.noCollision,
      fun id hid => h.answers id (OrderedDict.mem_pop.mp hid).2, h.quiescent.replicaWrites,
      fun i task htask hne => h.done_of_ne htask hne,
      ⟨⟨.remove, x.cluster.manager.ring, .submitted⟩, List.getElem?_concat_length, rfl,
        fun id hid key entry hentry => ?_⟩⟩
    rw [htold]
    exact h.current id (OrderedDict.mem_pop.mp hid).2 key entry
      (NodeTransport.unexpired_of_lookup hentry hle fun hlookup => hlookup)
  exact of_moving hmoving hrun hquiescent

/-- **A call leaves all copies current**, once the background work that it started is done. -/
theorem step (h : x.Sound hashToInt ids) {e : SettledCall V} (hs : x.Step hashToInt ids e x') :
    x'.Sound hashToInt ids := by
  obtain ⟨clock, call, t, background⟩ := e
  obtain ⟨haccepts, hwithin, hrun, hquiescent, htold⟩ := hs
  have hle : x.now ≤ t := (hwithin 0).1.trans (hwithin 0).2
  have hsame (hcall : call.told (x.cluster.serve hashToInt clock call).1 x.told = x.told)
      {c : DistributedCacheCluster V}
      (hcurrent : c.Current hashToInt x.cluster.manager.ring x.told t) :
      c.Current hashToInt x.cluster.manager.ring x'.told t := by
    rw [htold, hcall]
    exact hcurrent
  cases call with
  | put key value ttlSeconds => exact h.put haccepts hle hrun hquiescent htold
  | delete key => exact h.delete haccepts hle hrun hquiescent htold
  | get key =>
    exact h.of_onlyForgets (onlyForgets_get _ _ _) hle (hsame (ite_self _)) hrun hquiescent
  | heartbeat nodeId =>
    obtain ⟨hmanager, hkeeps, hwrites, hrebalances⟩ :=
      serve_heartbeat hashToInt x.cluster clock nodeId
    have hforgets : OnlyForgets x.cluster
        (x.cluster.serve hashToInt clock (.heartbeat nodeId)).2 :=
      ⟨hmanager, hkeeps.toSameNodes, hwrites, hrebalances, fun n k entry hentry =>
        (hkeeps.lookup n k).symm.trans hentry⟩
    exact h.of_onlyForgets hforgets hle (hsame (ite_self _)) hrun hquiescent
  | addNode node runtime =>
    by_cases hnew : node.nodeId ∈ x.cluster.manager.nodes
    · have hrefused : (x.cluster.serve hashToInt clock (.addNode node runtime)).2 = x.cluster := by
        have hget : x.cluster.manager.getNode node.nodeId ≠ none := fun hnone =>
          OrderedDict.get?_eq_none_iff.mp hnone hnew
        rw [serve, DistributedCacheCluster.addNode, if_pos hget]
      dsimp only at hrun
      rw [hrefused] at hrun
      exact h.of_onlyForgets (.refl _) hle (hsame (ite_self _)) hrun hquiescent
    · obtain ⟨hid, hanswers, hwithout⟩ := haccepts hnew
      exact h.addNode hnew hid hanswers hwithout hle hrun hquiescent (htold.trans (ite_self _))
  | removeNode nodeId =>
    by_cases hmember : nodeId ∈ x.cluster.manager.nodes
    · exact h.removeNode hmember hle hrun hquiescent (htold.trans (ite_self _))
    · have hrefused : (x.cluster.serve hashToInt clock (.removeNode nodeId)).2 = x.cluster := by
        have hget : x.cluster.manager.getNode nodeId = none :=
          OrderedDict.get?_eq_none_iff.mpr hmember
        rw [serve, DistributedCacheCluster.removeNode, if_pos hget]
      dsimp only at hrun
      rw [hrefused] at hrun
      exact h.of_onlyForgets (.refl _) hle (hsame (ite_self _)) hrun hquiescent

end Sound

end Remembered

/-- **Evictions and lifetimes only forget.** After every history of calls in which no call to a
node fails, a get finds the value that was put last, or none, or no owner that is alive. It never
finds a value that was overwritten or deleted, whatever the stores have evicted, whatever has
expired, and however the members have changed; and it does not raise. -/
theorem evictions_only_forget {x x' : Remembered V} {history : List (SettledCall V)}
    (h : x.Sound hashToInt ids) (hrun : Run (Remembered.Step hashToInt ids) x history x') :
    x'.Sound hashToInt ids ∧
      ∀ (clock : Clock) (key : String), (∀ i, x'.now ≤ clock i) →
        ∃ r, (x'.cluster.get hashToInt clock key).1 = some r ∧
          (r.ok = true ∧ r.value.isSome ∧ r.value = x'.told key ∨
            (r.Is .missing ∨ r.Is .unavailable) ∧ r.value = none) := by
  have hend := hrun.invariant (I := fun y => Remembered.Sound hashToInt ids y)
    (fun _ _ _ hy hs => hy.step hs) h
  refine ⟨hend, fun clock key hclock => ?_⟩
  obtain ⟨r, hr, hcase⟩ := get_of_answers (hend.answers_owner key)
  refine ⟨r, hr, hcase.imp_left fun ⟨hok, hsome⟩ => ⟨hok, hsome, ?_⟩⟩
  obtain ⟨value, hvalue⟩ := Option.isSome_iff_exists.mp hsome
  obtain ⟨node, hnode, entry, i, v, hentry, hlive, hv, rfl⟩ := found_of_get_owner hr hvalue
  have hmember : node.nodeId ∈ x'.cluster.manager.nodes := OrderedDict.mem_iff_exists_get?.mpr
    ⟨node, hend.manager.coherent.get?_nodes_of_mem_owners hnode⟩
  have hcopy : x'.cluster.transport.unexpired x'.now node.nodeId key = some entry :=
    NodeTransport.unexpired_of_lookup
      (NodeTransport.unexpired_eq_some_iff.mpr ⟨hentry, hlive⟩) (hclock i) id
  rw [hvalue, (hend.current _ hmember key entry hcopy).2, hv]

/-- Two nodes with room for one entry each. -/
def sampleTiny : DistributedCacheCluster ℕ :=
  { sampleCluster ["a", "b"] with
    transport := ⟨.inProcess, fun nodeId =>
      if nodeId ∈ ["a", "b"] then some (.create 0 (sampleNode nodeId) 1 Nat.one_pos) else none,
      fun _ => true⟩ }

theorem sampleTiny_sound :
    Remembered.Sound sampleHash {"m", "n", "a", "b", "c"} ⟨sampleTiny, 0, fun _ => none⟩ := by
  refine ⟨?_, sampleHash_noCollision, fun nodeId hn => ?_, ⟨rfl, fun task htask => by cases htask⟩,
    fun nodeId hn key entry hentry => ?_⟩
  · exact ClusterManager.Reachable.init (fun _ => 0) (["a", "b"].map sampleNode) 5
      (by decide +kernel) 1 Nat.one_pos (by simp [sampleNode])
  · obtain ⟨node, hnode, rfl⟩ := ClusterManager.exists_of_mem_nodes_init hn
    obtain ⟨id, hid, rfl⟩ := List.mem_map.mp hnode
    exact NodeTransport.answers_iff.mpr ⟨rfl, _, if_pos hid⟩
  · have hnone : sampleTiny.transport.lookup nodeId key = none := by
      change (if nodeId ∈ ["a", "b"] then some _ else none).bind _ = none
      split_ifs <;> rfl
    rw [NodeTransport.unexpired, hnone] at hentry
    cases hentry

/-- A put whose replica write is carried out, both at the reading 1. -/
def samplePut (key : String) (value : ℕ) : SettledCall ℕ :=
  ⟨fun _ => 1, .put key (some value) none, 1, [.replicate 0 (fun _ => 1) .carriedOut]⟩

/-- A put leads to a cluster that passes a check, if the executed put and replica write do. -/
private theorem exists_samplePut (x : Remembered ℕ) (key : String) (value : ℕ)
    (p : DistributedCacheCluster ℕ → Bool) (hnow : x.now ≤ 1)
    (halive : (x.cluster.manager.ring.owners sampleHash key).all
      fun node => x.cluster.manager.isAlive 1 node.nodeId)
    (hok : (x.cluster.put sampleHash (fun _ => 1) key (some value) none).1.any Response.ok)
    (hcheck : ((x.cluster.put sampleHash (fun _ => 1) key (some value) none).2.runBackground
      sampleHash (.replicate 0 (fun _ => 1) .carriedOut)).any
        fun c => decide (c.Quiescent) && p c) :
    ∃ c, x.Step sampleHash {"m", "n", "a", "b", "c"} (samplePut key value)
        ⟨c, 1, Function.update x.told key (some (some value))⟩ ∧ p c = true := by
  obtain ⟨c, hc, hcheck⟩ := (Option.any_eq_true _ _).mp hcheck
  obtain ⟨hquiescent, hp⟩ := Bool.and_eq_true_iff.mp hcheck
  refine ⟨c, ⟨fun node hnode _ => List.all_eq_true.mp halive node hnode, fun _ => ⟨hnow, le_rfl⟩,
    .single ⟨⟨rfl, trivial, le_rfl, fun _ => ⟨le_rfl, le_rfl⟩⟩, hc⟩, of_decide_eq_true hquiescent,
    ?_⟩, hp⟩
  exact (if_pos hok).symm

/-- Two puts into stores with room for one entry: the first key is forgotten. -/
theorem evictions_only_forget_full_stores :
    ∃ x', Run (Remembered.Step sampleHash {"m", "n", "a", "b", "c"})
        ⟨sampleTiny, 0, fun _ => none⟩ [samplePut "k" 7, samplePut "j" 8] x' ∧
      x'.told "k" = some (some 7) ∧
      (x'.cluster.get sampleHash (fun _ => 1) "k").1.map Response.value = some none ∧
      (x'.cluster.get sampleHash (fun _ => 1) "j").1.map Response.value = some (some (some 8)) := by
  let found (c : DistributedCacheCluster ℕ) (key : String) : Bool :=
    (c.get sampleHash (fun _ => 1) key).1.any Response.ok
  let alive (c : DistributedCacheCluster ℕ) (key : String) : Bool :=
    (c.manager.ring.owners sampleHash key).all fun node => c.manager.isAlive 1 node.nodeId
  let after (c : DistributedCacheCluster ℕ) : Option (DistributedCacheCluster ℕ) :=
    (c.put sampleHash (fun _ => 1) "j" (some 8) none).2.runBackground sampleHash
      (.replicate 0 (fun _ => 1) .carriedOut)
  obtain ⟨c₁, hfirst, hcheck⟩ := exists_samplePut ⟨sampleTiny, 0, fun _ => none⟩ "k" 7
    (fun c => alive c "j" &&
      ((c.put sampleHash (fun _ => 1) "j" (some 8) none).1.any Response.ok &&
        (after c).any fun d : DistributedCacheCluster ℕ =>
          decide d.Quiescent && (!found d "k" && found d "j")))
    zero_le_one (by decide +kernel) (by decide +kernel) (by decide +kernel)
  obtain ⟨halive, hcheck⟩ := Bool.and_eq_true_iff.mp hcheck
  obtain ⟨hok, hcheck⟩ := Bool.and_eq_true_iff.mp hcheck
  obtain ⟨c₂, hsecond, hcheck⟩ := exists_samplePut
    ⟨c₁, 1, Function.update (fun _ => none) "k" (some (some 7))⟩ "j" 8
    (fun d => !found d "k" && found d "j") le_rfl halive hok hcheck
  obtain ⟨hlost, hkept⟩ := Bool.and_eq_true_iff.mp hcheck
  have hrun := Run.cons hfirst (.single hsecond)
  obtain ⟨-, hget⟩ := evictions_only_forget sampleTiny_sound hrun
  refine ⟨_, hrun, rfl, ?_, ?_⟩
  · obtain ⟨r, hr, hcase⟩ := hget (fun _ => 1) "k" fun _ => le_rfl
    dsimp only [found] at hlost hr ⊢
    rw [hr] at hlost ⊢
    rcases hcase with ⟨hok, -⟩ | ⟨-, hvalue⟩
    · rw [Option.any_some, hok] at hlost
      cases hlost
    · rw [Option.map_some, hvalue]
  · obtain ⟨r, hr, hcase⟩ := hget (fun _ => 1) "j" fun _ => le_rfl
    dsimp only [found] at hkept hr ⊢
    rw [hr] at hkept ⊢
    rcases hcase with ⟨-, -, hvalue⟩ | ⟨⟨hok, -⟩ | ⟨hok, -⟩, -⟩
    · rw [Option.map_some, hvalue]
      rfl
    · rw [Option.any_some, hok] at hkept
      cases hkept
    · rw [Option.any_some, hok] at hkept
      cases hkept

end DistributedCache
