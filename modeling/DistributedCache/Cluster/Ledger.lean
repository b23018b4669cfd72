import DistributedCache.Cluster.HealthyCalls
import DistributedCache.Cluster.LinearizableCalls

/-!
# Writes carried out and writes acknowledged

A put or a delete takes effect when the first owner of its key carries it out. The second owner
follows later: a put submits a replica write when it goes on, and a delete calls the second owner
itself. A client learns of either only with the answer. In between the background loop may store
what it read or was given before.

The gateway runs next to two maps, one of the writes that were carried out and one of those that
were acknowledged.

## Main definitions

* `Ledger`, `Ledger.step` : the gateway next to the two maps.
* `Ledger.Orderly` : all members stay alive, nothing fails, nothing is evicted, and a write of the
  key arrives when the one before was answered.
* `Ledger.Due` : the value that was carried out still comes to a node.
* `Ledger.InTime` : a background step stores nothing that nobody replaces.
* `Ledger.Accounted`, `Ledger.Current` : the invariants.
* `Ledger.Effect` : what an event at a call does for the key.

## Main results

* `Ledger.Accounted.moves` : the calls stay accounted for when one of them goes on.
* `Ledger.Moves.effect` : a call that goes on without effect for the key.
-/

namespace DistributedCache

open Library Library.Relocation DistributedCacheCluster

variable {V : Type*} {hashToInt : String → ℕ} {key : String}

/-! ### What background steps store -/

/-- The step carries out a call that a rebalance has scheduled. -/
def BackgroundStep.OfRebalance : BackgroundStep → Prop
  | .migrate _ _ _ _ => True
  | _ => False

instance : DecidablePred BackgroundStep.OfRebalance
  | .migrate _ _ _ _ => isTrue trivial
  | .replicate _ _ _ | .begin _ | .snapshot _ _ _ | .plan _ _ _ | .cleanup _ _ => isFalse id

namespace DistributedCacheCluster

variable {c c' : DistributedCacheCluster V} {s : BackgroundStep}

/-- The node on which a background step stores the key, and the entry. -/
def storesFor (key : String) (c : DistributedCacheCluster V) (s : BackgroundStep) :
    Option (String × CacheEntry V) :=
  ((c.actionOf key s).bind Action.written).bind fun w => w.value.map fun entry => (w.node, entry)

/-- A replica write stores its key. -/
theorem exists_of_actionOf_store {w : Write String (CacheEntry V)}
    (h : c.actionOf key s = some (.store w)) : ∃ entry, w.value = some entry := by
  cases s with
  | replicate index clock outcome =>
    rw [actionOf] at h
    split_ifs at h
    obtain ⟨w', hw', hstore⟩ := Option.map_eq_some_iff.mp h
    obtain rfl := Action.store.inj hstore
    obtain ⟨write, -, hwrite⟩ := Option.bind_eq_some_iff.mp hw'
    rw [ReplicaWrite.write] at hwrite
    split_ifs at hwrite
    obtain rfl := Option.some.inj hwrite
    exact ⟨_, rfl⟩
  | begin index => cases h
  | snapshot index now outcome =>
    have h := Option.some.inj h
    split_ifs at h
  | plan index now clock => cases h
  | migrate index i clock outcome =>
    obtain ⟨w', -, h⟩ := Option.map_eq_some_iff.mp h
    split_ifs at h
  | cleanup nodeId now => cases h

theorem actionOf_ne_join {a : Action String (CacheEntry V)} (h : c.actionOf key s = some a) :
    a ≠ .join := by
  rintro rfl
  cases s with
  | replicate index clock outcome =>
    rw [actionOf] at h
    split_ifs at h
    obtain ⟨w, -, h⟩ := Option.map_eq_some_iff.mp h
    cases h
  | begin index => cases h
  | snapshot index now outcome =>
    have h := Option.some.inj h
    split_ifs at h
  | plan index now clock => cases h
  | migrate index i clock outcome =>
    obtain ⟨w, -, h⟩ := Option.map_eq_some_iff.mp h
    split_ifs at h
  | cleanup nodeId now => cases h

/-- As long as all rebalances write toward the owners of the key, a background step leaves the
copy of an owner as it is, or stores one. -/
theorem Healthy.lookup_owner (h : c.Healthy hashToInt) (hs : c.Works hashToInt s c')
    (htoward : ∀ job ∈ (c.keyView hashToInt key).jobs,
      job.WritesToward (c.manager.ring.ownerSet hashToInt key)) {nodeId : String}
    (hn : nodeId ∈ c.manager.ring.ownerIds hashToInt key) :
    c'.transport.lookup nodeId key = c.transport.lookup nodeId key ∨
      ∃ entry, c.storesFor key s = some (nodeId, entry) ∧
        c'.transport.lookup nodeId key = some entry := by
  have hrefines := refines_runBackground h hs.1 hs.2 key
  cases ha : c.actionOf key s with
  | none =>
    rw [ha] at hrefines
    have hview : c'.keyView hashToInt key = c.keyView hashToInt key := hrefines
    exact Or.inl (congrFun (congrArg State.hold hview) nodeId)
  | some a =>
    rw [ha] at hrefines
    have hstep : Step (c.keyView hashToInt key) a (c'.keyView hashToInt key) := hrefines
    refine (hstep.hold_eq (actionOf_ne_join ha) nodeId).imp_right ?_
    rintro ⟨w, hw, hnode, hvalue⟩
    have hstores : ∃ entry, w.value = some entry := by
      cases a with
      | perform i w' =>
        obtain rfl := Option.some.inj hw
        refine Option.isSome_iff_exists.mp ((hstep.isSome_of_perform htoward).mpr ?_)
        rw [hnode]
        exact ConsistentHashRing.mem_ownerSet.mpr hn
      | store w' =>
        obtain rfl := Option.some.inj hw
        exact exists_of_actionOf_store ha
      | begin i => cases hw
      | read i => cases hw
      | abort i => cases hw
      | plan i => cases hw
      | skip i w' => cases hw
      | join => cases hw
    obtain ⟨entry, hentry⟩ := hstores
    refine ⟨entry, ?_, hvalue.trans hentry⟩
    rw [storesFor, ha, Option.bind_some, hw, Option.bind_some, hentry, hnode]
    rfl

/-- What a background step stores is there afterwards. -/
theorem Healthy.lookup_of_storesFor (h : c.Healthy hashToInt) (hs : c.Works hashToInt s c')
    {nodeId : String} {entry : CacheEntry V}
    (hstores : c.storesFor key s = some (nodeId, entry)) :
    c'.transport.lookup nodeId key = some entry := by
  obtain ⟨w, hw, hentry⟩ := Option.bind_eq_some_iff.mp hstores
  obtain ⟨a, ha, hwritten⟩ := Option.bind_eq_some_iff.mp hw
  obtain ⟨entry', hvalue, heq⟩ := Option.map_eq_some_iff.mp hentry
  obtain ⟨rfl, rfl⟩ := Prod.mk.inj heq
  have hstep := refines_runBackground h hs.1 hs.2 key
  rw [ha] at hstep
  exact (Step.hold_of_written hstep hwritten).trans hvalue

/-- A background step keeps the goal of the rebalances at work. -/
theorem Healthy.writesToward (h : c.Healthy hashToInt) (hs : c.Works hashToInt s c')
    (htoward : ∀ job ∈ (c.keyView hashToInt key).jobs,
      job.WritesToward (c.manager.ring.ownerSet hashToInt key)) :
    ∀ job ∈ (c'.keyView hashToInt key).jobs,
      job.WritesToward (c.manager.ring.ownerSet hashToInt key) := by
  have hrefines := refines_runBackground h hs.1 hs.2 key
  cases ha : c.actionOf key s with
  | none =>
    rw [ha] at hrefines
    have hview : c'.keyView hashToInt key = c.keyView hashToInt key := hrefines
    rw [hview]
    exact htoward
  | some a =>
    rw [ha] at hrefines
    exact Step.writesToward hrefines (actionOf_ne_join ha) htoward

/-- A replica write of the key stays submitted until a background step stores it. -/
theorem mem_replicaWrites_or_storesFor (hs : c.WorksWell hashToInt s c') {w : ReplicaWrite V}
    (hw : w ∈ c.replicaWrites) (hkey : w.key = key) :
    w ∈ c'.replicaWrites ∨ c.storesFor key s = some (w.node.nodeId, ⟨w.value, none⟩) := by
  obtain ⟨hsucceeds, -, hrun⟩ := hs
  cases s with
  | replicate index clock outcome =>
    obtain rfl : outcome = .carriedOut := hsucceeds
    obtain ⟨w', hw', rfl⟩ := runBackground_replicate hrun
    by_cases heq : w = w'
    · subst heq
      right
      rw [storesFor, actionOf, if_pos rfl, hw', Option.bind_some, ReplicaWrite.write, if_pos hkey]
      rfl
    · exact Or.inl (mem_eraseIdx_of_ne hw' hw heq)
  | begin index =>
    obtain ⟨task, -, -, rfl⟩ := runBackground_begin hrun
    exact Or.inl hw
  | snapshot index now outcome =>
    obtain ⟨task, ring, node, todo, snapshots, -, -, ⟨-, rfl⟩ | ⟨entries, transport, -, rfl⟩⟩ :=
      runBackground_snapshot hrun
    · exact Or.inl hw
    · exact Or.inl hw
  | plan index now clock =>
    obtain ⟨task, ring, snapshots, -, -, rfl⟩ := runBackground_plan hrun
    exact Or.inl hw
  | migrate index i clock outcome =>
    obtain ⟨task, ring, pending, call, -, -, -, rfl⟩ := runBackground_migrate hrun
    exact Or.inl hw
  | cleanup nodeId now =>
    obtain rfl := Option.some.inj hrun
    exact Or.inl hw

end DistributedCacheCluster

/-! ### The two maps -/

/-- The key that a call writes. -/
def Call.writtenKey? : Call V → Option String
  | .put key _ _ | .delete key => some key
  | .get _ | .heartbeat _ | .addNode _ _ | .removeNode _ => none

namespace CallState

def writtenKey? (state : CallState V) : Option String := state.await.call.writtenKey?

/-- The write that the node serving the key has carried out. -/
def carriedOut? : CallState V → Option (ClientOp V)
  | .replied (.put _ _ key value ttlSeconds) (.written result) =>
    if result.ok then (Call.put key value ttlSeconds).clientOp? else none
  | .replied (.delete _ _ key) (.written result) =>
    if result.ok then some (.delete key) else none
  | _ => none

/-- What the call has yet to bring to the second owner: the node, the key, and the value, or
`none` for a deletion. A put submits its replica write when it goes on, and a delete calls the
second owner. -/
def toCome? : CallState V → Option (String × String × Option V)
  | .replied (.put routing _ key value _) _ =>
    routing.replica.map fun replica => (replica.nodeId, key, value)
  | .replied (.delete routing _ key) (.written result) =>
    if result.ok then routing.replica.map fun replica => (replica.nodeId, key, none) else none
  | .asking (.deleteReplica _ replica key) => some (replica.nodeId, key, none)
  | _ => none

end CallState

/-- The gateway next to the map of the writes that were carried out by the nodes serving their
keys, and the map of the writes that were acknowledged. -/
structure Ledger (V : Type*) where
  gateway : Gateway V
  carriedOut : KeyValueMap V
  acknowledged : KeyValueMap V

/-- The readings of the clock in a part of a call that checks the liveness of members. -/
def GatewayEvent.clock? : GatewayEvent V → Option Clock
  | .arrive clock _ | .resume _ clock => some clock
  | .perform _ _ | .raise _ | .background _ => none

/-- The event is no failure. -/
def GatewayEvent.Succeeds : GatewayEvent V → Prop
  | .raise _ => False
  | .background s => s.Succeeds
  | .arrive _ _ | .perform _ _ | .resume _ _ => True

instance : DecidablePred (GatewayEvent.Succeeds (V := V))
  | .raise _ => isFalse id
  | .background s => inferInstanceAs (Decidable s.Succeeds)
  | .arrive _ _ | .perform _ _ | .resume _ _ => isTrue trivial

namespace Ledger

/-- Nothing has been written since the owners agreed with the map `m`. -/
def init (c : DistributedCacheCluster V) (m : KeyValueMap V) : Ledger V := ⟨.init c, m, m⟩

/-- The map after a call was carried out. -/
def carryOut (state : Option (CallState V)) (m : KeyValueMap V) : KeyValueMap V :=
  match state.bind CallState.carriedOut? with
  | some op => op.run m
  | none => m

/-- The map after the answers to a call that waited. -/
def acknowledge (state : Option (CallState V)) (answers : CallHistory V) (m : KeyValueMap V) :
    KeyValueMap V :=
  match state.bind fun state => state.await.call.clientOp?, answers with
  | some op, [.respond _ r] => op.observe (some r) m
  | _, _ => m

section Hash

variable (hashToInt : String → ℕ)

/-- One event at the gateway. A write is carried out when the node that serves the key answers,
and acknowledged when the client is answered. -/
def step (x : Ledger V) (e : GatewayEvent V) : Option (Ledger V) :=
  (x.gateway.step hashToInt e).map fun p =>
    match e with
    | .perform id _ => ⟨p.1, carryOut (p.1.calls id) x.carriedOut, x.acknowledged⟩
    | .resume id _ => ⟨p.1, x.carriedOut, acknowledge (x.gateway.calls id) p.2 x.acknowledged⟩
    | _ => { x with gateway := p.1 }

/-- A put or a delete of the key has arrived and is not answered yet. -/
def UnderWay (x : Ledger V) (key : String) : Prop :=
  ∃ id < x.gateway.arrived, ∃ state ∈ x.gateway.calls id, state.writtenKey? = some key

instance (x : Ledger V) (key : String) : Decidable (x.UnderWay key) := by
  unfold UnderWay
  infer_instance

/-- The value that was carried out last still comes to the node, by a replica write or by a call
that goes on. -/
def Due (x : Ledger V) (key nodeId : String) : Prop :=
  (∃ w ∈ x.gateway.cluster.replicaWrites, w.key = key ∧ w.node.nodeId = nodeId ∧
    ∃ v ∈ x.carriedOut key, w.value = some v) ∨
  ∃ id < x.gateway.arrived,
    (x.gateway.calls id).bind CallState.toCome? = some (nodeId, key, x.carriedOut key)

instance [DecidableEq V] (x : Ledger V) (key nodeId : String) : Decidable (x.Due key nodeId) := by
  unfold Due
  infer_instance

/-- All members are alive. -/
def Alive (x : Ledger V) (e : GatewayEvent V) : Prop :=
  ∀ clock ∈ e.clock?, x.gateway.cluster.AllAlive clock

/-- Nothing fails and nothing is evicted; the calls are about keys, without `None` and without
lifetimes, or are heartbeats. A write of the key arrives when the one before was answered. -/
structure Orderly (key : String) (x : Ledger V) (e : GatewayEvent V) : Prop where
  succeeds : e.Succeeds
  plain : ∀ p ∈ e.arrival?, p.2.Plain
  inTurn : ∀ p ∈ e.arrival?, p.2.writtenKey? = some key → ¬x.UnderWay key
  room : ∀ cell ∈ x.gateway.putCell hashToInt e,
    x.gateway.cluster.transport.HasRoom cell.1 cell.2

instance (key : String) (x : Ledger V) (e : GatewayEvent V) :
    Decidable (x.Orderly hashToInt key e) :=
  decidable_of_iff (_ ∧ _ ∧ _ ∧ _)
    ⟨fun h => ⟨h.1, h.2.1, h.2.2.1, h.2.2.2⟩, fun h => ⟨h.1, h.2, h.3, h.4⟩⟩

/-- An orderly event while all members are alive. -/
def Step (key : String) (x : Ledger V) (e : GatewayEvent V) (x' : Ledger V) : Prop :=
  x.Alive e ∧ x.Orderly hashToInt key e ∧ x.step hashToInt e = some x'

/-- What a background step stores for the key on an owner was carried out last. Otherwise the
owner is the second one and the value carried out last is still to come there; a rebalance does
not even then replace a copy. -/
def InTime (key : String) (x : Ledger V) : GatewayEvent V → Prop
  | .background s => ∀ cell ∈ x.gateway.cluster.storesFor key s,
    cell.1 ∈ x.gateway.cluster.manager.ring.ownerIds hashToInt key →
      (∃ v ∈ x.carriedOut key, cell.2.value = some v) ∨
      cell.1 ∈ (x.gateway.cluster.manager.ring.ownerIds hashToInt key).tail ∧ x.Due key cell.1 ∧
        (s.OfRebalance → x.gateway.cluster.transport.lookup cell.1 key = none)
  | _ => True

instance [DecidableEq V] (key : String) (x : Ledger V) :
    ∀ e, Decidable (x.InTime hashToInt key e)
  | .background s => by
    unfold InTime
    infer_instance
  | .arrive _ _ | .perform _ _ | .resume _ _ | .raise _ => isTrue trivial

end Hash

end Ledger

/-! ### The invariants -/

/-- A waiting call was routed to the owners of its key. A write of the key `key` has been carried
out, and then `carried` is what it left, or it has not, and then `acked` is that. -/
inductive Stands (hashToInt : String → ℕ) (ring : ConsistentHashRing) (key : String)
    (carried acked : Option V) : CallState V → Prop
  | put {routing : RoutingDecision} {target : NodeConfig} {k : String} {v : V}
      (howners : ring.owners hashToInt k = target :: routing.replica.toList)
      (hsame : k = key → acked = carried) :
      Stands hashToInt ring key carried acked (.asking (.put routing target k (some v) none))
  | stored {routing : RoutingDecision} {target : NodeConfig} {k : String} {v : V}
      {result : OperationResult}
      (howners : ring.owners hashToInt k = target :: routing.replica.toList)
      (hok : result.ok = true) (hvalue : k = key → carried = some v) :
      Stands hashToInt ring key carried acked
        (.replied (.put routing target k (some v) none) (.written result))
  | get (routing : RoutingDecision) (target : NodeConfig) (k : String) :
      Stands hashToInt ring key carried acked (.asking (.get routing target k))
  | read (routing : RoutingDecision) (target : NodeConfig) (k : String) (reply : NodeReply V) :
      Stands hashToInt ring key carried acked (.replied (.get routing target k) reply)
  | getReplica (replica : NodeConfig) (k : String) :
      Stands hashToInt ring key carried acked (.asking (.getReplica replica k))
  | readReplica (replica : NodeConfig) (k : String) (reply : NodeReply V) :
      Stands hashToInt ring key carried acked (.replied (.getReplica replica k) reply)
  | delete {routing : RoutingDecision} {target : NodeConfig} {k : String}
      (howners : ring.owners hashToInt k = target :: routing.replica.toList)
      (hsame : k = key → acked = carried) :
      Stands hashToInt ring key carried acked (.asking (.delete routing target k))
  | erased {routing : RoutingDecision} {target : NodeConfig} {k : String} {result : OperationResult}
      (howners : ring.owners hashToInt k = target :: routing.replica.toList)
      (herased : k = key → result.ok = true → carried = none)
      (hrefused : k = key → result.ok = false → acked = carried) :
      Stands hashToInt ring key carried acked
        (.replied (.delete routing target k) (.written result))
  | deleteReplica {target replica : NodeConfig} {k : String}
      (howners : ring.owners hashToInt k = [target, replica]) (herased : k = key → carried = none) :
      Stands hashToInt ring key carried acked (.asking (.deleteReplica target replica k))
  | erasedReplica {target replica : NodeConfig} {k : String} {result : OperationResult}
      (herased : k = key → carried = none) :
      Stands hashToInt ring key carried acked
        (.replied (.deleteReplica target replica k) (.written result))
  | heartbeat (nodeId : String) (node : NodeConfig) :
      Stands hashToInt ring key carried acked (.asking (.heartbeat nodeId node))
  | noted (nodeId : String) (node : NodeConfig) :
      Stands hashToInt ring key carried acked (.replied (.heartbeat nodeId node) .noted)

/-- What a call about another key says stays true when the values of the key change. -/
theorem Stands.congr {ring : ConsistentHashRing} {carried acked carried' acked' : Option V}
    {state : CallState V} (h : Stands hashToInt ring key carried acked state)
    (hsame : state.writtenKey? = some key → carried' = carried ∧ acked' = acked) :
    Stands hashToInt ring key carried' acked' state := by
  have hcarried : ∀ {k}, state.writtenKey? = some k → k = key → carried' = carried :=
    fun hk heq => (hsame (heq ▸ hk)).1
  have hacked : ∀ {k}, state.writtenKey? = some k → k = key → acked' = acked :=
    fun hk heq => (hsame (heq ▸ hk)).2
  cases h with
  | put howners h => exact .put howners fun hk => by rw [hacked rfl hk, hcarried rfl hk, h hk]
  | stored howners hok h => exact .stored howners hok fun hk => by rw [hcarried rfl hk, h hk]
  | get routing target k => exact .get routing target k
  | read routing target k reply => exact .read routing target k reply
  | getReplica replica k => exact .getReplica replica k
  | readReplica replica k reply => exact .readReplica replica k reply
  | delete howners h =>
    exact .delete howners fun hk => by rw [hacked rfl hk, hcarried rfl hk, h hk]
  | erased howners herased hrefused =>
    refine .erased howners (fun hk hok => ?_) fun hk hok => ?_
    · rw [hcarried rfl hk, herased hk hok]
    · rw [hacked rfl hk, hcarried rfl hk, hrefused hk hok]
  | deleteReplica howners h =>
    exact .deleteReplica howners fun hk => by rw [hcarried rfl hk, h hk]
  | erasedReplica h => exact .erasedReplica fun hk => by rw [hcarried rfl hk, h hk]
  | heartbeat nodeId node => exact .heartbeat nodeId node
  | noted nodeId node => exact .noted nodeId node

namespace Ledger

/-- The calls that wait agree with the two maps, and at most one of them writes the key. -/
structure Accounted (hashToInt : String → ℕ) (key : String) (x : Ledger V) : Prop where
  healthy : x.gateway.cluster.Healthy hashToInt
  toward : ∀ job ∈ (x.gateway.cluster.keyView hashToInt key).jobs,
    job.WritesToward (x.gateway.cluster.manager.ring.ownerSet hashToInt key)
  arrived : ∀ id, ∀ state ∈ x.gateway.calls id, id < x.gateway.arrived
  stands : ∀ id, ∀ state ∈ x.gateway.calls id, Stands hashToInt x.gateway.cluster.manager.ring key
    (x.carriedOut key) (x.acknowledged key) state
  single : ∀ id id', ∀ state ∈ x.gateway.calls id, ∀ state' ∈ x.gateway.calls id',
    state.writtenKey? = some key → state'.writtenKey? = some key → id = id'
  settled : ¬x.UnderWay key → x.acknowledged key = x.carriedOut key

/-- The first owner of the key has the value that was carried out last. The second owner has it
too, or it is due there. -/
structure Current (hashToInt : String → ℕ) (key : String) (x : Ledger V) : Prop where
  primary : ∀ node ∈ (x.gateway.cluster.manager.ring.owners hashToInt key).head?,
    x.gateway.cluster.transport.lookup node.nodeId key = (x.carriedOut key).map .plain
  replica : ∀ node ∈ (x.gateway.cluster.manager.ring.owners hashToInt key).tail,
    x.gateway.cluster.transport.lookup node.nodeId key = (x.carriedOut key).map .plain ∨
      x.Due key node.nodeId

variable {x x' : Ledger V}

/-- One call goes on, as `new` or to its end, and the values of the key change only if it writes
the key. -/
structure Moves (key : String) (x : Ledger V) (id : ℕ) (new : Option (CallState V))
    (x' : Ledger V) : Prop where
  ring : x'.gateway.cluster.manager.ring = x.gateway.cluster.manager.ring
  rebalances : x'.gateway.cluster.rebalances = x.gateway.cluster.rebalances
  calls : x'.gateway.calls = Function.update x.gateway.calls id new
  arrived : x.gateway.arrived ≤ x'.gateway.arrived
  lt : id < x'.gateway.arrived
  same : (∃ state ∈ x.gateway.calls id, state.writtenKey? = some key) ∨
    x'.carriedOut key = x.carriedOut key ∧ x'.acknowledged key = x.acknowledged key
  turn : ∀ state ∈ new, state.writtenKey? = some key →
    (∃ state ∈ x.gateway.calls id, state.writtenKey? = some key) ∨ ¬x.UnderWay key

/-- Nothing happens for the key, but that a call submits the replica write that it had to. -/
structure Same (key : String) (x x' : Ledger V) : Prop where
  manager : HeartbeatOnly x.gateway.cluster.manager x'.gateway.cluster.manager
  rebalances : x'.gateway.cluster.rebalances = x.gateway.cluster.rebalances
  carriedOut : x'.carriedOut key = x.carriedOut key
  lookup : ∀ n, x'.gateway.cluster.transport.lookup n key =
    x.gateway.cluster.transport.lookup n key
  replicaWrites : ∀ w ∈ x'.gateway.cluster.replicaWrites, w.key = key →
    w ∈ x.gateway.cluster.replicaWrites ∨
      ∃ id, (x.gateway.calls id).bind CallState.toCome? = some (w.node.nodeId, key, w.value)
  calls : ∀ id n v, (x'.gateway.calls id).bind CallState.toCome? = some (n, key, v) →
    ∃ id, (x.gateway.calls id).bind CallState.toCome? = some (n, key, v)
  due : ∀ n, x.Due key n → x'.Due key n

/-- What an event at a call does for the key: nothing, or the first owner or the second owner
carries a write out. -/
inductive Effect (hashToInt : String → ℕ) (key : String) (x x' : Ledger V) : Prop
  | same (h : Same key x x')
  | written (hring : x'.gateway.cluster.manager.ring = x.gateway.cluster.manager.ring)
      (h : x'.Current hashToInt key)
  | erased (hring : x'.gateway.cluster.manager.ring = x.gateway.cluster.manager.ring)
      (hcarried : x.carriedOut key = none)
      (h : x.Current hashToInt key → x'.Current hashToInt key)

theorem Current.same (h : x.Current hashToInt key) (hsame : Same key x x') :
    x'.Current hashToInt key := by
  constructor <;> simp only [hsame.manager.ring, hsame.lookup, hsame.carriedOut]
  · exact h.primary
  · exact fun node hnode => (h.replica node hnode).imp_right (hsame.due node.nodeId)

/-- A write of the key that waits is under way. -/
theorem Accounted.underWay (h : x.Accounted hashToInt key) {id : ℕ} {state : CallState V}
    (hstate : x.gateway.calls id = some state) (hkey : state.writtenKey? = some key) :
    x.UnderWay key := ⟨id, h.arrived id state hstate, state, hstate, hkey⟩

/-- No call waits at first. -/
theorem accounted_init {c : DistributedCacheCluster V} (hhealthy : c.Healthy hashToInt)
    (htoward : ∀ job ∈ (c.keyView hashToInt key).jobs,
      job.WritesToward (c.manager.ring.ownerSet hashToInt key)) (m : KeyValueMap V) :
    (init c m).Accounted hashToInt key where
  healthy := hhealthy
  toward := htoward
  arrived id state hstate := by cases hstate
  stands id state hstate := by cases hstate
  single id id' state hstate := by cases hstate
  settled _ := rfl

/-- The calls stay accounted for when one of them goes on. -/
theorem Accounted.moves (h : x.Accounted hashToInt key) {id : ℕ} {new : Option (CallState V)}
    (hmoves : Moves key x id new x') (hhealthy : x'.gateway.cluster.Healthy hashToInt)
    (hstands : ∀ state ∈ new, Stands hashToInt x.gateway.cluster.manager.ring key
      (x'.carriedOut key) (x'.acknowledged key) state)
    (hsettled : (∀ state ∈ new, state.writtenKey? ≠ some key) →
      (∃ state ∈ x.gateway.calls id, state.writtenKey? = some key) →
        x'.acknowledged key = x'.carriedOut key) : x'.Accounted hashToInt key := by
  have hcalls : ∀ {other state}, x'.gateway.calls other = some state →
      other = id ∧ new = some state ∨ other ≠ id ∧ x.gateway.calls other = some state := by
    intro other state hstate
    by_cases hid : other = id
    · rw [hmoves.calls, hid, Function.update_self] at hstate
      exact Or.inl ⟨hid, hstate⟩
    · rw [hmoves.calls, Function.update_of_ne hid] at hstate
      exact Or.inr ⟨hid, hstate⟩
  -- the other calls do not write the key when this one does
  have hother : ∀ {other state}, other ≠ id → x.gateway.calls other = some state →
      state.writtenKey? = some key →
      ¬∃ state ∈ x.gateway.calls id, state.writtenKey? = some key := by
    rintro other state hne hstate hkey ⟨state', hstate', hkey'⟩
    exact hne (h.single other id state hstate state' hstate' hkey hkey')
  refine ⟨hhealthy, ?_, fun other state hstate => ?_, fun other state hstate => ?_,
    fun other other' state hstate state' hstate' hkey hkey' => ?_, fun hidle => ?_⟩
  · rw [keyView, hmoves.rebalances, hmoves.ring]
    exact h.toward
  · rcases hcalls hstate with ⟨rfl, -⟩ | ⟨-, hold⟩
    · exact hmoves.lt
    · exact (h.arrived other state hold).trans_le hmoves.arrived
  · rw [hmoves.ring]
    rcases hcalls hstate with ⟨-, hnew⟩ | ⟨hne, hold⟩
    · exact hstands state hnew
    · refine (h.stands other state hold).congr fun hkey => ?_
      exact hmoves.same.resolve_left (hother hne hold hkey)
  · have hnot : ∀ {other state state'}, new = some state → state.writtenKey? = some key →
        other ≠ id → x.gateway.calls other = some state' → state'.writtenKey? ≠ some key := by
      intro other state state' hnew hkey hne hold hkey'
      rcases hmoves.turn state hnew hkey with hwrites | hidle
      · exact hother hne hold hkey' hwrites
      · exact hidle (h.underWay hold hkey')
    rcases hcalls hstate with ⟨rfl, hnew⟩ | ⟨hne, hold⟩ <;>
      rcases hcalls hstate' with ⟨rfl, hnew'⟩ | ⟨hne', hold'⟩
    · rfl
    · exact absurd hkey' (hnot hnew hkey hne' hold')
    · exact absurd hkey (hnot hnew' hkey' hne hold)
    · exact h.single other other' state hold state' hold' hkey hkey'
  · have hnew : ∀ state ∈ new, state.writtenKey? ≠ some key := fun state hstate hkey =>
      hidle ⟨id, hmoves.lt, state, by rw [hmoves.calls, Function.update_self]; exact hstate, hkey⟩
    by_cases hwrites : ∃ state ∈ x.gateway.calls id, state.writtenKey? = some key
    · exact hsettled hnew hwrites
    · obtain ⟨hcarried, hacked⟩ := hmoves.same.resolve_left hwrites
      rw [hcarried, hacked]
      refine h.settled ?_
      rintro ⟨other, hlt, state, hstate, hkey⟩
      have hne : other ≠ id := by
        rintro rfl
        exact hwrites ⟨state, hstate, hkey⟩
      exact hidle ⟨other, hlt.trans_le hmoves.arrived, state,
        by rw [hmoves.calls, Function.update_of_ne hne]; exact hstate, hkey⟩

/-- What is due stays due when one call goes on that does not bring it, or goes on to do so. -/
theorem Due.moves {nodeId : String} (hdue : x.Due key nodeId) {id : ℕ}
    {new : Option (CallState V)} (hmoves : Moves key x id new x')
    (hcarried : x'.carriedOut key = x.carriedOut key)
    (hws : ∀ w ∈ x.gateway.cluster.replicaWrites, w ∈ x'.gateway.cluster.replicaWrites)
    (hold : (x.gateway.calls id).bind CallState.toCome? =
      some (nodeId, key, x.carriedOut key) → x'.Due key nodeId) : x'.Due key nodeId := by
  rcases hdue with ⟨w, hw, hkey, hnode, hvalue⟩ | ⟨other, hlt, hother⟩
  · exact Or.inl ⟨w, hws w hw, hkey, hnode, hcarried ▸ hvalue⟩
  · by_cases hid : other = id
    · exact hold (hid ▸ hother)
    · refine Or.inr ⟨other, hlt.trans_le hmoves.arrived, ?_⟩
      rw [hmoves.calls, Function.update_of_ne hid, hcarried]
      exact hother

/-- A call goes on without effect for the key, or submits the replica write that it had to. -/
theorem Moves.effect {id : ℕ} {new : Option (CallState V)} (hmoves : Moves key x id new x')
    (hmanager : HeartbeatOnly x.gateway.cluster.manager x'.gateway.cluster.manager)
    (hcarried : x'.carriedOut key = x.carriedOut key)
    (hlookup : ∀ n, x'.gateway.cluster.transport.lookup n key =
      x.gateway.cluster.transport.lookup n key)
    {ws : List (ReplicaWrite V)}
    (hws : x'.gateway.cluster.replicaWrites = x.gateway.cluster.replicaWrites ++ ws)
    (hbrings : ∀ w ∈ ws, w.key = key →
      (x.gateway.calls id).bind CallState.toCome? = some (w.node.nodeId, key, w.value))
    (hnew : ∀ n v, new.bind CallState.toCome? = some (n, key, v) →
      (x.gateway.calls id).bind CallState.toCome? = some (n, key, v))
    (hold : ∀ n, (x.gateway.calls id).bind CallState.toCome? = some (n, key, x.carriedOut key) →
      x'.Due key n) : Effect hashToInt key x x' := by
  refine .same ⟨hmanager, hmoves.rebalances, hcarried, hlookup, fun w hw hkey => ?_,
    fun other n v hother => ?_, fun n hdue => ?_⟩
  · rw [hws] at hw
    exact (List.mem_append.mp hw).imp_right fun hw => ⟨id, hbrings w hw hkey⟩
  · by_cases hid : other = id
    · rw [hid, hmoves.calls, Function.update_self] at hother
      exact ⟨id, hnew n v hother⟩
    · rw [hmoves.calls, Function.update_of_ne hid] at hother
      exact ⟨other, hother⟩
  · refine hdue.moves hmoves hcarried (fun w hw => ?_) (hold n)
    rw [hws]
    exact List.mem_append_left ws hw

end Ledger

end DistributedCache
