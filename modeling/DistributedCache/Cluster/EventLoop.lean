import DistributedCache.Cluster.LimitedCalls
import DistributedCache.Cluster.Replication
import DistributedCache.Library.LaggingCopy

/-!
# The event loop of an in-process cluster

The background loop is an event loop with a first-in, first-out queue. A put submits the replica
write from the thread of the API: a callback, which creates the task of the write and puts it at
the end of the queue. With the in-process transport no coroutine is ever suspended. So a call of a
client is one step, the task of a write is one step, in which it takes a permit of the semaphore
and gives it back, and the writes land in the order in which they were submitted. The replica of a
key is a copy that lags behind: only a delete, which does not wait in the queue, can leave it with
a value that the map no longer has.

Source: `distributed_cache/cluster/service.py`, `_submit_bg`, `_run_bg_loop`, `_replicate_async`
and the calls of a client, with `InProcessNodeTransport`. The members stay the same.

## Main definitions

* `EventLoop`, `EventLoop.serve`, `EventLoop.tick` : the gateway with the queue of its loop.
* `EventLoop.view` : the writes that have not landed, in the order in which they will.
* `Watched.Step` : runs of the loop, next to the map and to the values that come back.

## Main results

* `EventLoop.view_serve`, `EventLoop.view_tick` : the loop refines the cluster.
* `EventLoop.ready_ticks` : without further calls the queue runs empty.
* `Watched.replicas_catch_up` : when the replica is like the primary.
-/

namespace DistributedCache

open Library DistributedCacheCluster

variable {V : Type*} {hashToInt : String → ℕ}

/-- An entry of the queue: the callback of `run_coroutine_threadsafe`, which creates the task of a
replica write, or the task. -/
inductive LoopHandle (V : Type*)
  | create (write : ReplicaWrite V)
  | run (write : ReplicaWrite V)
  deriving DecidableEq

/-- The write that the callback is about. -/
def LoopHandle.create? : LoopHandle V → Option (ReplicaWrite V)
  | .create w => some w
  | .run _ => none

/-- The write that the task is about. -/
def LoopHandle.run? : LoopHandle V → Option (ReplicaWrite V)
  | .create _ => none
  | .run w => some w

structure EventLoop (V : Type*) where
  manager : ClusterManager
  transport : NodeTransport V
  ready : List (LoopHandle V)

namespace EventLoop

/-- The gateway without the loop. -/
def gateway (l : EventLoop V) : DistributedCacheCluster V := .init l.manager l.transport

/-- After a client call, with the callbacks of what it submitted at the end of the queue. -/
def submit (l : EventLoop V) (c : DistributedCacheCluster V) : EventLoop V :=
  ⟨c.manager, c.transport, l.ready ++ c.replicaWrites.map .create⟩

/-- A call of a client. -/
def serve (hashToInt : String → ℕ) (l : EventLoop V) (clock : Clock) (call : Call V) :
    Option (Response V) × EventLoop V :=
  let result := l.gateway.serve hashToInt clock call
  (result.1, l.submit result.2)

/-- The loop carries out the first entry of its queue. -/
def tick (l : EventLoop V) (clock : Clock) : EventLoop V :=
  match l.ready with
  | [] => l
  | .create w :: ready => { l with ready := ready ++ [.run w] }
  | .run w :: ready =>
    { l with
      transport := l.transport.limitedPut clock .carriedOut w.node w.key w.value w.ttlSeconds
      ready := ready }

/-- A cleanup pass of the store of a node, on a thread of its own. -/
def cleanup (l : EventLoop V) (now : Time) (nodeId : String) : EventLoop V :=
  { l with transport := l.transport.cleanup now nodeId }

/-- The writes that have not landed. Those that have a task come first. -/
def queue (l : EventLoop V) : List (ReplicaWrite V) :=
  l.ready.filterMap LoopHandle.run? ++ l.ready.filterMap LoopHandle.create?

/-- The cluster, with the writes in the order in which they land. -/
def view (l : EventLoop V) : DistributedCacheCluster V :=
  { l.gateway with replicaWrites := l.queue }

/-! ### The loop refines the cluster -/

variable (l : EventLoop V)

theorem queue_submit (c : DistributedCacheCluster V) :
    (l.submit c).queue = l.queue ++ c.replicaWrites := by
  have hrun : ∀ ws : List (ReplicaWrite V), (ws.map LoopHandle.create).filterMap LoopHandle.run? =
      [] := fun ws => by simp [List.filterMap_map, LoopHandle.run?, Function.comp_def]
  have hcreate : ∀ ws : List (ReplicaWrite V),
      (ws.map LoopHandle.create).filterMap LoopHandle.create? = ws := fun ws => by
    simp [List.filterMap_map, LoopHandle.create?, Function.comp_def]
  simp [queue, submit, hrun, hcreate]

/-- A call about a key leaves the rebalances alone. -/
private theorem exists_serve_eq (hashToInt : String → ℕ) (c : DistributedCacheCluster V)
    (clock : Clock) (op : ClientOp V) : ∃ manager transport writes,
      (c.serve hashToInt clock op.call).2 =
        { c with manager := manager, transport := transport, replicaWrites := writes } := by
  cases op with
  | put key value =>
    obtain ⟨manager, transport, writes, heq, -⟩ := c.exists_put_eq clock key (some value) none
    exact ⟨_, _, _, heq⟩
  | get key =>
    obtain ⟨manager, transport, heq⟩ := c.exists_get_eq clock key
    exact ⟨_, _, _, heq⟩
  | delete key =>
    obtain ⟨transport, heq⟩ := c.exists_delete_eq clock key
    exact ⟨_, _, _, heq⟩

/-- A call of a client, on the cluster. -/
theorem view_serve (hashToInt : String → ℕ) (clock : Clock) (op : ClientOp V) :
    l.view.serve hashToInt clock op.call =
      ((l.serve hashToInt clock op.call).1, (l.serve hashToInt clock op.call).2.view) := by
  have hserve := serve_of_work hashToInt (c := l.gateway) rfl l.queue rfl clock op.call
  obtain ⟨manager, transport, writes, heq⟩ := exists_serve_eq hashToInt l.gateway clock op
  change l.view.serve hashToInt clock op.call = _ at hserve
  rw [hserve, serve, view, queue_submit, heq]
  rfl

@[simp] theorem queue_create (manager : ClusterManager) (transport : NodeTransport V)
    (w : ReplicaWrite V) (ready : List (LoopHandle V)) :
    (⟨manager, transport, ready ++ [.run w]⟩ : EventLoop V).queue =
      (⟨manager, transport, .create w :: ready⟩ : EventLoop V).queue := by
  simp [queue, List.filterMap_cons, LoopHandle.run?, LoopHandle.create?]

@[simp] theorem queue_run (manager : ClusterManager) (transport : NodeTransport V)
    (w : ReplicaWrite V) (ready : List (LoopHandle V)) :
    (⟨manager, transport, .run w :: ready⟩ : EventLoop V).queue =
      w :: (⟨manager, transport, ready⟩ : EventLoop V).queue := by
  simp [queue, List.filterMap_cons, LoopHandle.run?, LoopHandle.create?]

variable {l}

/-- A callback changes nothing for the cluster. -/
theorem view_tick_create {w : ReplicaWrite V} {ready : List (LoopHandle V)}
    (h : l.ready = .create w :: ready) (clock : Clock) : (l.tick clock).view = l.view := by
  obtain ⟨manager, transport, _⟩ := l
  obtain rfl : _ = LoopHandle.create w :: ready := h
  simp [view, tick, gateway]

/-- A task is the next replica write. -/
theorem view_tick_run (hashToInt : String → ℕ) {w : ReplicaWrite V} {ready : List (LoopHandle V)}
    (h : l.ready = .run w :: ready) (clock : Clock) :
    l.queue = w :: (l.tick clock).queue ∧
      l.view.runBackground hashToInt (.replicate 0 clock .carriedOut) =
        some (l.tick clock).view := by
  obtain ⟨manager, transport, _⟩ := l
  obtain rfl : _ = LoopHandle.run w :: ready := h
  have hqueue : (⟨manager, transport, .run w :: ready⟩ : EventLoop V).queue =
      w :: ((⟨manager, transport, .run w :: ready⟩ : EventLoop V).tick clock).queue :=
    queue_run manager transport w ready
  refine ⟨hqueue, ?_⟩
  rw [runBackground, view, hqueue]
  rfl

variable (l)

/-- A tick of the loop is the next replica write of the cluster, or nothing. -/
theorem view_tick (hashToInt : String → ℕ) (clock : Clock) : (l.tick clock).view = l.view ∨
    l.view.runBackground hashToInt (.replicate 0 clock .carriedOut) = some (l.tick clock).view := by
  cases hready : l.ready with
  | nil => exact Or.inl (by rw [tick, hready])
  | cons handle ready =>
    cases handle with
    | create w => exact Or.inl (view_tick_create hready clock)
    | run w => exact Or.inr (view_tick_run hashToInt hready clock).2

/-- What the loop does while no call comes. -/
def ticks (l : EventLoop V) (clocks : List Clock) : EventLoop V := clocks.foldl tick l

/-- The ticks that the queue needs. -/
def ticksLeft (l : EventLoop V) : ℕ :=
  l.ready.length + (l.ready.filterMap LoopHandle.create?).length

theorem ticksLeft_tick (clock : Clock) : (l.tick clock).ticksLeft = l.ticksLeft - 1 := by
  obtain ⟨manager, transport, ready⟩ := l
  cases ready with
  | nil => rfl
  | cons handle ready =>
    cases handle with
    | create w =>
      simp [ticksLeft, tick, List.filterMap_cons, LoopHandle.create?]
    | run w =>
      simp [ticksLeft, tick, List.filterMap_cons, LoopHandle.create?]

/-- Without further calls the queue runs empty. -/
theorem ready_ticks {clocks : List Clock} (h : l.ticksLeft ≤ clocks.length) :
    (l.ticks clocks).ready = [] := by
  induction clocks generalizing l with
  | nil =>
    have hlength : l.ready.length = 0 := by
      rw [ticksLeft, List.length_nil] at h
      omega
    exact List.length_eq_zero_iff.mp hlength
  | cons clock clocks ih =>
    refine ih (l.tick clock) ?_
    rw [l.ticksLeft_tick]
    rw [List.length_cons] at h
    omega

/-- The value of the last write of the key that waits. -/
def lastWrite (key : String) : Option V :=
  (l.queue.filter fun w => w.key = key).getLast?.bind ReplicaWrite.value

end EventLoop

/-! ### Watched runs -/

/-- The values that come back, after a call and its response: those of the writes that an
acknowledged delete overtook, until the next acknowledged put. -/
def ClientOp.revive (op : ClientOp V) (r : Option (Response V)) (l : EventLoop V)
    (m : KeyValueMap V) : KeyValueMap V :=
  if r.any Response.ok then
    match op with
    | .put key _ => Function.update m key none
    | .get _ => m
    | .delete key => Function.update m key (l.lastWrite key)
  else m

/-- A gateway with the map of the acknowledged calls, and the values that come back. -/
structure Watched (V : Type*) where
  loop : EventLoop V
  map : KeyValueMap V
  revived : KeyValueMap V

inductive WatchedEvent (V : Type*)
  | call (clock : Clock) (op : ClientOp V)
  | beat (clock : Clock) (nodeId : String)
  | tick (clock : Clock)
  | cleanup (now : Time) (nodeId : String)

namespace Watched

/-- The steps of a gateway whose members stay alive; nothing is evicted. -/
inductive Step (hashToInt : String → ℕ) : Watched V → WatchedEvent V → Watched V → Prop
  | call {x : Watched V} {clock : Clock} {op : ClientOp V}
      (halive : x.loop.view.AllAlive clock)
      (hroom : x.loop.view.NoEviction hashToInt (.call clock op.call)) :
      Step hashToInt x (.call clock op) ⟨(x.loop.serve hashToInt clock op.call).2,
        op.observe (x.loop.serve hashToInt clock op.call).1 x.map,
        op.revive (x.loop.serve hashToInt clock op.call).1 x.loop x.revived⟩
  | beat {x : Watched V} (clock : Clock) (nodeId : String) :
      Step hashToInt x (.beat clock nodeId)
        { x with loop := (x.loop.serve hashToInt clock (.heartbeat nodeId)).2 }
  | tick {x : Watched V} {clock : Clock}
      (hroom : ∀ w, x.loop.ready.head? = some (.run w) →
        x.loop.transport.HasRoom w.node.nodeId w.key) :
      Step hashToInt x (.tick clock) { x with loop := x.loop.tick clock }
  | cleanup {x : Watched V} (now : Time) (nodeId : String) :
      Step hashToInt x (.cleanup now nodeId) { x with loop := x.loop.cleanup now nodeId }

/-- The owners of the key are an original and its copy. -/
structure Follows (hashToInt : String → ℕ) (key : String) (p q : NodeConfig) (x : Watched V)
    (s : LaggingCopy V) : Prop where
  healthy : x.loop.view.Healthy hashToInt
  owners : x.loop.manager.ring.owners hashToInt key = [p, q]
  primary : x.loop.transport.lookup p.nodeId key = s.original.map .plain
  replica : x.loop.transport.lookup q.nodeId key = s.copy.map .plain
  queue : (x.loop.queue.filter fun w => w.key = key) =
    s.queue.map fun v => ⟨q, key, some v, none⟩
  map : x.map key = s.original
  revived : x.revived key = s.revived

variable {key : String} {p q : NodeConfig} {x x' : Watched V} {s : LaggingCopy V}

theorem Follows.ne (h : x.Follows hashToInt key p q s) : p.nodeId ≠ q.nodeId := by
  have hnodup := ConsistentHashRing.nodup_ownerIds hashToInt x.loop.manager.ring key
  rw [ConsistentHashRing.ownerIds, h.owners] at hnodup
  simpa using hnodup

theorem Follows.lastWrite (h : x.Follows hashToInt key p q s) :
    x.loop.lastWrite key = s.queue.getLast? := by
  rw [EventLoop.lastWrite, h.queue, List.getLast?_map]
  cases s.queue.getLast? <;> rfl

/-- What changes nothing for the key. -/
private theorem Follows.of_same (h : x.Follows hashToInt key p q s)
    (hhealthy : x'.loop.view.Healthy hashToInt)
    (hring : x'.loop.manager.ring = x.loop.manager.ring)
    (hlookup : ∀ n, x'.loop.transport.lookup n key = x.loop.transport.lookup n key)
    (hqueue : (x'.loop.queue.filter fun w => w.key = key) =
      x.loop.queue.filter fun w => w.key = key)
    (hmap : x'.map key = x.map key) (hrevived : x'.revived key = x.revived key) :
    x'.Follows hashToInt key p q s where
  healthy := hhealthy
  owners := hring ▸ h.owners
  primary := (hlookup _).trans h.primary
  replica := (hlookup _).trans h.replica
  queue := hqueue.trans h.queue
  map := hmap.trans h.map
  revived := hrevived.trans h.revived

/-- What changes no entry and submits nothing. -/
private theorem Follows.of_keeps (h : x.Follows hashToInt key p q s) {l : EventLoop V}
    (hmanager : HeartbeatOnly x.loop.manager l.manager)
    (hkeeps : x.loop.transport.Keeps l.transport) (hqueue : l.queue = x.loop.queue) :
    Follows hashToInt key p q { x with loop := l } s := by
  have hc := h.healthy
  have hnodes : l.manager.nodes = x.loop.manager.nodes := hmanager.nodes
  have hwrites : l.view.replicaWrites = x.loop.view.replicaWrites := hqueue
  have hhealthy : l.view.Healthy hashToInt := by
    refine ⟨hmanager.coherent hc.coherent, ⟨hc.noTtl.transport.keeps hkeeps, ?_,
      hc.noTtl.rebalances⟩, fun nodeId hn => ?_, fun w hw => ?_, by simp [EventLoop.view,
      EventLoop.gateway, init]⟩
    · exact hwrites ▸ hc.noTtl.replicaWrites
    · exact hkeeps.toSameNodes.answers_iff.mpr (hc.answers nodeId (hnodes ▸ hn))
    · exact hnodes ▸ hc.replicaTargets w (hwrites ▸ hw)
  exact h.of_same hhealthy hmanager.ring (fun n => hkeeps.lookup n key) (by rw [hqueue]) rfl rfl

private theorem revive_of_ne {op : ClientOp V} (hkey : key ≠ op.key) (r : Option (Response V))
    (l : EventLoop V) (m : KeyValueMap V) : op.revive r l m key = m key := by
  unfold ClientOp.revive
  split_ifs
  · cases op with
    | put k value => exact Function.update_of_ne hkey _ _
    | get k => rfl
    | delete k => exact Function.update_of_ne hkey _ _
  · rfl

private theorem revive_of_not_ok {op : ClientOp V} {r : Response V} (hr : r.ok = false)
    (l : EventLoop V) (m : KeyValueMap V) : op.revive (some r) l m = m := by
  unfold ClientOp.revive
  rw [if_neg]
  simp [hr]

private theorem revive_get (k : String) (r : Option (Response V)) (l : EventLoop V)
    (m : KeyValueMap V) : (ClientOp.get k).revive r l m = m := by
  unfold ClientOp.revive
  split_ifs <;> rfl

/-- A call of a client, as the owners of a key see it. -/
private theorem Follows.served (h : x.Follows hashToInt key p q s) {op : ClientOp V}
    {r : Response V} (hserved : ServedAlive hashToInt x.loop.view op r x'.loop.view)
    (hmap : x'.map = op.observe (some r) x.map)
    (hrevived : x'.revived = op.revive (some r) x.loop x.revived) :
    x'.Follows hashToInt key p q s ∨ ∃ e, x'.Follows hashToInt key p q (s.step e) := by
  have hhealthy := hserved.healthy h.healthy
  have hring : x'.loop.manager.ring = x.loop.manager.ring := hserved.manager.ring
  by_cases hkey : key = op.key
  · generalize hcluster : x'.loop.view = c' at hserved hhealthy
    have hmanager : x'.loop.manager = c'.manager :=
      congrArg DistributedCacheCluster.manager hcluster
    have htransport : x'.loop.transport = c'.transport :=
      congrArg DistributedCacheCluster.transport hcluster
    have hqueue : x'.loop.queue = c'.replicaWrites :=
      congrArg DistributedCacheCluster.replicaWrites hcluster
    cases hserved with
    | unavailable howners =>
      refine Or.inl (h.of_same (hcluster ▸ hhealthy) hring ?_ ?_ ?_ ?_)
      · exact fun n => by rw [htransport]; rfl
      · rw [hqueue]; rfl
      · rw [hmap, ClientOp.observe_of_not_ok rfl]
      · rw [hrevived, revive_of_not_ok rfl]
    | @put k value target rest manager transport r howners hmanager hok hwrites =>
      obtain rfl : key = k := hkey
      obtain ⟨rfl, rfl⟩ := List.cons.inj (howners.symm.trans h.owners)
      refine Or.inr ⟨.write value, hcluster ▸ hhealthy, hring ▸ h.owners, ?_, ?_, ?_, ?_, ?_⟩
      · rw [htransport, hwrites.lookup, if_pos ⟨rfl, rfl⟩]
        rfl
      · rw [htransport, hwrites.lookup, if_neg fun hcell => h.ne hcell.1.symm]
        exact h.replica
      · have hsubmitted : x'.loop.queue = x.loop.queue ++ [⟨q, key, some value, none⟩] := hqueue
        rw [hsubmitted, List.filter_append, h.queue]
        simp [LaggingCopy.step]
      · rw [hmap, ClientOp.observe_of_ok hok]
        exact Function.update_self _ _ _
      · rw [hrevived, ClientOp.revive, if_pos (by simp [hok])]
        exact Function.update_self _ _ _
    | get hmanager hkeeps =>
      refine Or.inl (h.of_same (hcluster ▸ hhealthy) hring ?_ ?_ ?_ ?_)
      · exact fun n => by rw [htransport, hkeeps.lookup]; rfl
      · rw [hqueue]; rfl
      · rw [hmap, ClientOp.observe_get]
      · rw [hrevived, revive_get]
    | missing howners hok hmissing hkeeps =>
      refine Or.inl (h.of_same (hcluster ▸ hhealthy) hring ?_ ?_ ?_ ?_)
      · exact fun n => by rw [htransport, hkeeps.lookup]; rfl
      · rw [hqueue]; rfl
      · rw [hmap, ClientOp.observe_of_not_ok hok]
      · rw [hrevived, revive_of_not_ok hok]
    | @deleted k target rest transport r howners hok hsame hlookup =>
      obtain rfl : key = k := hkey
      have hids : x.loop.view.manager.ring.ownerIds hashToInt key = [p.nodeId, q.nodeId] :=
        congrArg (List.map NodeConfig.nodeId) h.owners
      refine Or.inr ⟨.delete, hcluster ▸ hhealthy, hring ▸ h.owners, ?_, ?_, ?_, ?_, ?_⟩
      · rw [htransport, hlookup, if_pos ⟨rfl, by simp [hids]⟩]
        rfl
      · rw [htransport, hlookup, if_pos ⟨rfl, by simp [hids]⟩]
        rfl
      · rw [hqueue]
        exact h.queue
      · rw [hmap, ClientOp.observe_of_ok hok]
        exact Function.update_self _ _ _
      · rw [hrevived, ClientOp.revive, if_pos (by simp [hok])]
        exact (Function.update_self _ _ _).trans h.lastWrite
  · left
    obtain ⟨ws, hws, hmem⟩ := hserved.exists_replicaWrites
    have hqueue : x'.loop.queue = x.loop.queue ++ ws := hws
    refine h.of_same hhealthy hring (hserved.lookup_of_ne hkey) ?_ ?_ ?_
    · rw [hqueue, List.filter_append, List.append_right_eq_self, List.filter_eq_nil_iff]
      intro w hw
      simp [(hmem w hw).1, Ne.symm hkey]
    · rw [hmap, ClientOp.observe_of_ne hkey]
    · rw [hrevived, revive_of_ne hkey]

/-- The landing of a write, as the owners of a key see it. -/
private theorem Follows.landed (h : x.Follows hashToInt key p q s) {clock : Clock}
    {w : ReplicaWrite V} {ready : List (LoopHandle V)} (hready : x.loop.ready = .run w :: ready)
    (hroom : x.loop.transport.HasRoom w.node.nodeId w.key) :
    Follows hashToInt key p q { x with loop := x.loop.tick clock } s ∨
      Follows hashToInt key p q { x with loop := x.loop.tick clock } (s.step .land) := by
  obtain ⟨hqueue, hrun⟩ := EventLoop.view_tick_run hashToInt hready clock
  have hw : x.loop.view.replicaWrites[0]? = some w := congrArg (·[0]?) hqueue
  have hroom' : x.loop.view.NoEviction hashToInt
      (.background (.replicate 0 clock .carriedOut)) := by
    rintro cell hcell
    rw [putCell, hw] at hcell
    obtain rfl := Option.some.inj hcell
    exact hroom
  have hhealthy := h.healthy.runBackground hroom' hrun
  have hwrites : x.loop.transport.Writes w.node.nodeId w.key (some ⟨w.value, none⟩)
      (x.loop.tick clock).transport := by
    rw [EventLoop.tick, hready]
    rcases h.healthy.limitedPut_eq hroom' hw with ⟨-, hwrites⟩ | ⟨hfail, -⟩
    · exact hwrites
    · exact absurd rfl hfail
  have hmanager : (x.loop.tick clock).manager = x.loop.manager := by rw [EventLoop.tick, hready]
  by_cases hkey : w.key = key
  · right
    have hfilter := h.queue
    rw [hqueue, List.filter_cons_of_pos (by simp [hkey])] at hfilter
    cases hs : s.queue with
    | nil => simp [hs] at hfilter
    | cons v queue =>
      rw [hs, List.map_cons] at hfilter
      obtain ⟨rfl, hrest⟩ := List.cons.inj hfilter
      refine ⟨hhealthy, ?_, ?_, ?_, ?_, h.map, h.revived⟩
      · rw [hmanager]
        exact h.owners
      · rw [hwrites.lookup, if_neg fun hcell => h.ne hcell.1]
        exact h.primary
      · rw [hwrites.lookup, if_pos ⟨rfl, rfl⟩, LaggingCopy.step, hs]
        rfl
      · rw [hrest, LaggingCopy.step, hs]
        rfl
  · left
    refine h.of_same hhealthy (by rw [hmanager]) (fun n => ?_) ?_ rfl rfl
    · rw [hwrites.lookup, if_neg fun hcell => hkey hcell.2.symm]
    · rw [hqueue, List.filter_cons_of_neg (by simp [hkey])]

/-- One event, as the owners of a key see it. -/
theorem Follows.step (h : x.Follows hashToInt key p q s) {e : WatchedEvent V}
    (hstep : Step hashToInt x e x') :
    x'.Follows hashToInt key p q s ∨ ∃ e, x'.Follows hashToInt key p q (s.step e) := by
  cases hstep with
  | @call clock op halive hroom =>
    obtain ⟨r, c', hserve, hserved⟩ := servedAlive h.healthy halive op hroom
    rw [EventLoop.view_serve] at hserve
    obtain ⟨hresponse, rfl⟩ := Prod.mk.inj hserve
    rw [hresponse]
    exact h.served hserved rfl rfl
  | beat clock nodeId =>
    obtain ⟨hmanager, hkeeps, hwrites, -⟩ :=
      serve_heartbeat hashToInt x.loop.gateway clock nodeId
    refine Or.inl (h.of_keeps hmanager hkeeps ?_)
    rw [EventLoop.serve, EventLoop.queue_submit, hwrites]
    exact List.append_nil _
  | @tick clock hroom =>
    cases hready : x.loop.ready with
    | nil =>
      rw [show x.loop.tick clock = x.loop by rw [EventLoop.tick, hready]]
      exact Or.inl h
    | cons handle ready =>
      cases handle with
      | create w =>
        have hview := EventLoop.view_tick_create hready clock
        refine Or.inl (h.of_same (hview ▸ h.healthy) ?_ ?_ ?_ rfl rfl)
        · exact congrArg (fun c => c.manager.ring) hview
        · exact fun n => congrArg (fun c => c.transport.lookup n key) hview
        · exact congrArg (fun c : DistributedCacheCluster V =>
            c.replicaWrites.filter fun w => w.key = key) hview
      | run w => exact (h.landed hready (hroom w (by rw [hready]; rfl))).imp_right fun h => ⟨_, h⟩
  | cleanup now nodeId =>
    exact Or.inl (h.of_keeps (Or.inl rfl)
      (NodeTransport.keeps_cleanup h.healthy.noTtl.transport now nodeId) rfl)

/-- Nothing waits, and the owners of the key agree with the map. -/
private theorem follows_of_settled (h : Observed.Settled hashToInt key ⟨x.loop.view, x.map⟩)
    (howners : x.loop.manager.ring.owners hashToInt key = [p, q])
    (hrevived : x.revived key = none) :
    x.Follows hashToInt key p q ⟨x.map key, x.map key, [], none⟩ where
  healthy := h.healthy
  owners := howners
  primary := h.owners p (List.mem_of_mem_head? (congrArg List.head? howners))
  replica := h.owners q (List.mem_of_getLast? (congrArg List.getLast? howners))
  queue := congrArg (List.filter fun w => decide (w.key = key)) h.quiescent.replicaWrites
  map := rfl
  revived := hrevived

/-- The owners of a key with a replica, along a run. -/
theorem exists_follows (h : Observed.Settled hashToInt key ⟨x.loop.view, x.map⟩)
    (howners : x.loop.manager.ring.owners hashToInt key = [p, q])
    (hrevived : x.revived key = none) {events : List (WatchedEvent V)}
    (hrun : Run (Step hashToInt) x events x') :
    ∃ s, x'.Follows hashToInt key p q s ∧ s.Tracked := by
  refine hrun.invariant (I := fun y => ∃ s, y.Follows hashToInt key p q s ∧ s.Tracked)
    (fun y e y' hy hstep => ?_)
    ⟨_, follows_of_settled h howners hrevived, LaggingCopy.tracked_of_agree _⟩
  obtain ⟨s, hfollows, htracked⟩ := hy
  rcases hfollows.step hstep with hsame | ⟨e', hnext⟩
  · exact ⟨s, hsame, htracked⟩
  · exact ⟨s.step e', hnext, htracked.step e'⟩

/-- What a get answers. -/
theorem Follows.get_reads (h : x.Follows hashToInt key p q s) {clock : Clock}
    (halive : x.loop.view.AllAlive clock) :
    ∃ r, (x.loop.serve hashToInt clock (.get key)).1 = some r ∧ r.Reads s.read := by
  have hserve := congrArg Prod.fst (x.loop.view_serve hashToInt clock (.get key))
  have howners : x.loop.view.manager.ring.owners hashToInt key = [p, q] := h.owners
  refine ⟨_, hserve.symm.trans (h.healthy.get_response halive (by simp [howners])), ?_⟩
  have hp : x.loop.view.transport.lookup p.nodeId key = s.original.map .plain := h.primary
  have hq : x.loop.view.transport.lookup q.nodeId key = s.copy.map .plain := h.replica
  rw [liveCopy, liveOwners_true, howners, LaggingCopy.read]
  cases horiginal : s.original with
  | some v =>
    simp [hp, horiginal, CacheEntry.plain, getResponse, Response.Reads, Response.Is]
  | none =>
    cases hcopy : s.copy with
    | some v =>
      simp [hp, hq, horiginal, hcopy, CacheEntry.plain, getResponse, Response.Reads, Response.Is]
    | none =>
      simp [hp, hq, horiginal, hcopy, getResponse, Response.Reads, Response.Is]

/-- A value that comes back was the value of the map when it was deleted. -/
theorem revived_was_deleted {start : Watched V} {events : List (WatchedEvent V)}
    (hstart : Observed.Settled hashToInt key ⟨start.loop.view, start.map⟩)
    (howners : start.loop.manager.ring.owners hashToInt key = [p, q])
    (hrevived : start.revived key = none) (hrun : Run (Step hashToInt) start events x)
    {e : WatchedEvent V} (hstep : Step hashToInt x e x') {v : V} (hv : x'.revived key = some v) :
    x.revived key = some v ∨ x.map key = some v := by
  obtain ⟨s, h, hs⟩ := exists_follows hstart howners hrevived hrun
  rcases h.step hstep with h' | ⟨e', h'⟩
  · exact Or.inl (h.revived.trans (h'.revived.symm.trans hv))
  · refine (hs.revived_step (h'.revived.symm.trans hv)).imp h.revived.trans h.map.trans

end Watched

end DistributedCache
