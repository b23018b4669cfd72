import DistributedCache.Cluster.ConcurrentCalls
import DistributedCache.Cluster.Refinement
import DistributedCache.Cluster.Routing

/-!
# Dead nodes stay dead

A node is alive for a while after its last heartbeat. The calls of clients record heartbeats too,
but only of nodes that they reached, and they reach only nodes that were alive when they were
routed. So once a node is dead, and the calls about keys that were routed to it have ended, no
such call brings it back, however calls overlap and whatever the background loop does: it is left
alone until it answers a heartbeat or is added anew. Heartbeats that it does not answer change
nothing. When all nodes are dead the gateway answers every call about a key with 503, for good.

## Main definitions

* `Gateway.TimedStep` : one event at the gateway, in an interval of time.
* `Gateway.Revives` : the events that can bring a dead node back.
* `Abandoned` : nodes that are dead and that no call under way about a key involves.

## Main results

* `Abandoned.step` : all events but answered heartbeats and additions leave dead nodes abandoned.
* `dead_nodes_stay_dead` : so do whole runs, and the keys of dead nodes are answered with 503.
-/

namespace DistributedCache

open Library Library.Linearizable DistributedCacheCluster

variable {V : Type*} {hashToInt : String → ℕ} {dead : Set String}

/-- The call is about a key, and waits for one of the nodes. -/
def Await.Involves (dead : Set String) : Await V → Prop
  | .put _ target _ _ _ | .get _ target _ | .delete _ target _ => target.nodeId ∈ dead
  | .getReplica replica _ | .deleteReplica _ replica _ => replica.nodeId ∈ dead
  | .heartbeat _ _ => False

def CallState.Involves (dead : Set String) : CallState V → Prop
  | .asking await | .replied await _ => await.Involves dead

/-- The client call is about the key. -/
def Call.About (key : String) : Call V → Prop
  | .put k _ _ | .get k | .delete k => k = key
  | _ => False

/-- The event records a heartbeat that one of the nodes has answered, or adds one of them. -/
def Gateway.Revives (dead : Set String) (g : Gateway V) : GatewayEvent V → Prop
  | .resume id _ =>
    match g.calls id with
    | some (.replied (.heartbeat nodeId _) _) => nodeId ∈ dead
    | _ => False
  | .arrive _ (.addNode node _) =>
    node.nodeId ∈ dead ∧ g.cluster.manager.getNode node.nodeId = none
  | _ => False

/-- All readings of the clock by client calls are between the two times. -/
def GatewayEvent.Within (t t' : Time) : GatewayEvent V → Prop
  | .arrive clock _ | .perform _ clock | .resume _ clock => ∀ i, t ≤ clock i ∧ clock i ≤ t'
  | _ => True

/-- One event at the gateway, from the one time to the other. -/
def Gateway.TimedStep (hashToInt : String → ℕ) (x : Gateway V × Time) (e : GatewayEvent V)
    (x' : Gateway V × Time) : Prop :=
  x.2 ≤ x'.2 ∧ e.Within x.2 x'.2 ∧ ∃ answers, x.1.step hashToInt e = some (x'.1, answers)

/-- The nodes are dead at the time, and no call under way about a key involves them. -/
structure Abandoned (dead : Set String) (g : Gateway V) (t : Time) : Prop where
  isDead : ∀ nodeId ∈ dead, g.cluster.manager.isAlive t nodeId = false
  waits : ∀ id state, g.calls id = some state → ¬state.Involves dead

/-! ### The manager -/

namespace ClusterManager

variable {m : ClusterManager} {now t : Time} {nodeId other : String}

theorem isAlive_congr {m' : ClusterManager}
    (htimeout : m'.heartbeatTimeoutSeconds = m.heartbeatTimeoutSeconds)
    (hseen : m'.lastHeartbeat nodeId = m.lastHeartbeat nodeId) :
    m'.isAlive t nodeId = m.isAlive t nodeId := by
  rw [isAlive, isAlive, hseen, htimeout]

theorem isAlive_addNode_of_ne {node : NodeConfig} (hne : nodeId ≠ node.nodeId) :
    (m.addNode hashToInt now node).isAlive t nodeId = m.isAlive t nodeId :=
  isAlive_congr rfl (Function.update_of_ne hne _ _)

theorem isAlive_removeNode_eq_false (h : m.isAlive t nodeId = false) (other : String) :
    (m.removeNode other).isAlive t nodeId = false := by
  by_cases hid : nodeId = other
  · have hnone : (m.removeNode other).lastHeartbeat nodeId = none := by
      rw [hid]
      exact Function.update_self _ _ _
    rw [isAlive, hnone]
  · have hsame : (m.removeNode other).isAlive t nodeId = m.isAlive t nodeId :=
      isAlive_congr rfl (Function.update_of_ne hid _ _)
    rw [hsame, h]

/-- A node that serves a key, at readings from the time `t` on, is not dead at `t`. -/
theorem isAlive_of_servedBy {clock : Clock} (hclock : ∀ i, t ≤ clock i) {key : String}
    {node : NodeConfig} (h : (m.routeForKey hashToInt clock key).servedBy = some node) :
    m.isAlive t node.nodeId = true := by
  obtain ⟨i, -, hi⟩ := exists_alive_of_servedBy h
  by_contra hdead
  rw [isAlive_eq_false_of_le (Bool.eq_false_iff.mpr hdead) (hclock i)] at hi
  cases hi

end ClusterManager

namespace Abandoned

variable {g g' : Gateway V} {t t' : Time} {c : DistributedCacheCluster V} {clock : Clock}

/-- Time passes. -/
theorem later (h : Abandoned dead g t) (hle : t ≤ t') : Abandoned dead g t' :=
  ⟨fun nodeId hn => ClusterManager.isAlive_eq_false_of_le (h.isDead nodeId hn) hle, h.waits⟩

/-- The node that serves a key is not one of the dead ones. -/
theorem notMem_of_servedBy (h : Abandoned dead g t) (hclock : ∀ i, t ≤ clock i) {key : String}
    {node : NodeConfig}
    (hserved : (g.cluster.manager.routeForKey hashToInt clock key).servedBy = some node) :
    node.nodeId ∉ dead := by
  intro hmem
  have halive := ClusterManager.isAlive_of_servedBy hclock hserved
  rw [h.isDead _ hmem] at halive
  cases halive

/-- Nor is the second owner that a call turns to. -/
theorem notMem_of_otherOwner (h : Abandoned dead g t) {now : Time} (hnow : t ≤ now)
    {routing : RoutingDecision} {target replica : NodeConfig}
    (hother : otherOwner g.cluster.manager now routing target = some replica) :
    replica.nodeId ∉ dead := by
  intro hmem
  have halive := (Option.filter_eq_some_iff.mp hother).2
  rw [ClusterManager.isAlive_eq_false_of_le (h.isDead _ hmem) hnow, Bool.and_false] at halive
  cases halive

/-- The dead nodes are dead for another cluster as well. -/
theorem ofCluster (h : Abandoned dead g t)
    (hdead : ∀ nodeId ∈ dead, c.manager.isAlive t nodeId = false) :
    Abandoned dead { g with cluster := c } t :=
  ⟨hdead, h.waits⟩

theorem wait (h : Abandoned dead g t) (id : ℕ) {s : CallState V} (hs : ¬s.Involves dead) :
    Abandoned dead { g with calls := Function.update g.calls id (some s) } t :=
  ⟨h.isDead, fun other state hother => by
    rcases Gateway.of_update hother with ⟨-, hnew⟩ | hold
    · exact Option.some.inj hnew ▸ hs
    · exact h.waits other state hold⟩

theorem finish (h : Abandoned dead g t) (id : ℕ) :
    Abandoned dead { g with calls := Function.update g.calls id none } t :=
  ⟨h.isDead, fun other state hother => by
    rcases Gateway.of_update hother with ⟨-, hnew⟩ | hold
    · cases hnew
    · exact h.waits other state hold⟩

/-- A heartbeat of another node. -/
private theorem recordHeartbeat (h : Abandoned dead g t) (now : Time) {nodeId : String}
    (hn : nodeId ∉ dead) : Abandoned dead { g with cluster := { g.cluster with
      manager := g.cluster.manager.recordHeartbeat now nodeId } } t :=
  h.ofCluster fun other hother => by
    have hne : other ≠ nodeId := fun heq => hn (heq ▸ hother)
    exact (ClusterManager.isAlive_recordHeartbeat_of_ne hne now t).trans (h.isDead other hother)

private theorem routed (h : Abandoned dead g t) (id : ℕ) (hclock : ∀ i, t ≤ clock i) (key : String)
    (await : RoutingDecision → NodeConfig → Await V)
    (hawait : ∀ routing target, (await routing target).Involves dead → target.nodeId ∈ dead) :
    Abandoned dead
      (g.proceed id (g.cluster.routed hashToInt clock key await, g.cluster)).1 t := by
  rw [DistributedCacheCluster.routed]
  cases hserved : (g.cluster.manager.routeForKey hashToInt clock key).servedBy with
  | none => exact h.finish id
  | some target =>
    exact h.wait id (s := .asking _) fun hinvolves =>
      h.notMem_of_servedBy hclock hserved (hawait _ target hinvolves)

/-- A call arrives. -/
theorem arrive (h : Abandoned dead g t) (id : ℕ) (hclock : ∀ i, t ≤ clock i) {call : Call V}
    (hrevives : ¬g.Revives dead (.arrive clock call)) :
    Abandoned dead (g.proceed id (g.cluster.begin hashToInt clock call)).1 t := by
  cases call with
  | put key value ttlSeconds => exact h.routed id hclock key _ fun _ _ hn => hn
  | get key => exact h.routed id hclock key _ fun _ _ hn => hn
  | delete key => exact h.routed id hclock key _ fun _ _ hn => hn
  | heartbeat nodeId =>
    rw [begin]
    cases g.cluster.manager.getNode nodeId with
    | none => exact h.finish id
    | some node => exact h.wait id (s := .asking _) False.elim
  | addNode node runtime =>
    refine Abandoned.finish (g := { g with
      cluster := (g.cluster.addNode hashToInt clock node runtime).2 }) (h.ofCluster ?_) id
    intro nodeId hn
    rw [DistributedCacheCluster.addNode]
    split_ifs
    · exact h.isDead nodeId hn
    · rename_i hnew
      have hne : nodeId ≠ node.nodeId := by
        rintro rfl
        exact hrevives ⟨hn, not_not.mp hnew⟩
      exact (ClusterManager.isAlive_addNode_of_ne hne).trans (h.isDead nodeId hn)
  | removeNode other =>
    refine Abandoned.finish (g := { g with cluster := (g.cluster.removeNode other).2 })
      (h.ofCluster ?_) id
    intro nodeId hn
    rw [DistributedCacheCluster.removeNode]
    split_ifs
    · exact h.isDead nodeId hn
    · exact ClusterManager.isAlive_removeNode_eq_false (h.isDead nodeId hn) other

/-- A call goes on. -/
theorem resume (h : Abandoned dead g t) {id : ℕ} (hclock : ∀ i, t ≤ clock i) {await : Await V}
    {reply : NodeReply V} {p : CallProgress V × DistributedCacheCluster V}
    (hrevives : ¬g.Revives dead (.resume id clock))
    (hstate : g.calls id = some (.replied await reply))
    (hresume : g.cluster.resume clock await reply = some p) :
    Abandoned dead (g.proceed id p).1 t := by
  have hawait : ¬await.Involves dead := h.waits id _ hstate
  unfold DistributedCacheCluster.resume at hresume
  split at hresume
  · rename_i routing target key value ttlSeconds result
    split_ifs at hresume
    · obtain rfl := Option.some.inj hresume
      refine Abandoned.finish (g := { g with cluster := _ }) ?_ id
      exact h.ofCluster (h.recordHeartbeat (clock 0) hawait).isDead
    · obtain rfl := Option.some.inj hresume
      exact h.finish id
  · rename_i routing target key isFound value
    split_ifs at hresume
    · obtain rfl := Option.some.inj hresume
      exact (h.recordHeartbeat (clock 0) hawait).finish id
    · split at hresume
      · obtain rfl := Option.some.inj hresume
        exact h.finish id
      · rename_i replica hother
        obtain rfl := Option.some.inj hresume
        exact h.wait id (s := .asking _) (h.notMem_of_otherOwner (hclock 1) hother)
  · obtain rfl := Option.some.inj hresume
    exact h.finish id
  · rename_i routing target key result
    split_ifs at hresume
    · split at hresume
      · obtain rfl := Option.some.inj hresume
        exact h.finish id
      · rename_i replica hother
        obtain rfl := Option.some.inj hresume
        exact h.wait id (s := .asking _) (h.notMem_of_otherOwner (hclock 0) hother)
    · obtain rfl := Option.some.inj hresume
      exact h.finish id
  · obtain rfl := Option.some.inj hresume
    exact h.finish id
  · rename_i nodeId node
    obtain rfl := Option.some.inj hresume
    rw [Gateway.Revives, hstate] at hrevives
    exact (h.recordHeartbeat (clock 0) hrevives).finish id
  · cases hresume

/-- **Events that do not revive the dead nodes leave them abandoned.** -/
theorem step (h : Abandoned dead g t) {e : GatewayEvent V} (hrevives : ¬g.Revives dead e)
    (hstep : Gateway.TimedStep hashToInt (g, t) e (g', t')) : Abandoned dead g' t' := by
  obtain ⟨hle, hwithin, answers, hstep⟩ := hstep
  refine Abandoned.later ?_ hle
  cases e with
  | arrive clock call =>
    obtain ⟨rfl, -⟩ := Prod.mk.inj (Option.some.inj hstep)
    exact Abandoned.arrive (g := { g with arrived := g.arrived + 1 }) ⟨h.isDead, h.waits⟩ _
      (fun i => (hwithin i).1) hrevives
  | perform id clock =>
    dsimp only [Gateway.step] at hstep
    split at hstep
    · rename_i await hstate
      obtain ⟨p, -, heq⟩ := Option.map_eq_some_iff.mp hstep
      obtain ⟨rfl, -⟩ := Prod.mk.inj heq
      refine Abandoned.wait (g := { g with cluster := { g.cluster with transport := p.2 } })
        (h.ofCluster h.isDead) id (s := .replied await p.1) (h.waits id (.asking await) hstate)
    · cases hstep
  | resume id clock =>
    dsimp only [Gateway.step] at hstep
    split at hstep
    · rename_i await reply hstate
      obtain ⟨p, hresume, heq⟩ := Option.map_eq_some_iff.mp hstep
      obtain rfl : (g.proceed id p).1 = g' := congrArg Prod.fst heq
      exact h.resume (fun i => (hwithin i).1) hrevives hstate hresume
    · cases hstep
  | raise id =>
    obtain ⟨-, -, heq⟩ := Option.map_eq_some_iff.mp hstep
    obtain ⟨rfl, -⟩ := Prod.mk.inj heq
    exact h.finish id
  | background s =>
    obtain ⟨c, hs, heq⟩ := Option.map_eq_some_iff.mp hstep
    obtain ⟨rfl, -⟩ := Prod.mk.inj heq
    refine h.ofCluster ?_
    rw [(frontKept_runBackground hs).manager]
    exact h.isDead

/-- A client call about a key all of whose owners are dead is answered at once. -/
theorem arrive_eq (h : Abandoned dead g t) {call : Call V} {key : String} (hcall : call.About key)
    (hclock : ∀ i, t ≤ clock i)
    (howners : ∀ node ∈ g.cluster.manager.ring.owners hashToInt key, node.nodeId ∈ dead) :
    g.step hashToInt (.arrive clock call) =
      some ({ g with
          arrived := g.arrived + 1
          calls := Function.update g.calls g.arrived none },
        [.invoke g.arrived call, .respond g.arrived noLiveNodes]) := by
  have hnone : (g.cluster.manager.routeForKey hashToInt clock key).servedBy = none := by
    refine Option.eq_none_iff_forall_ne_some.mpr fun node hserved => ?_
    exact h.notMem_of_servedBy hclock hserved
      (howners node (ClusterManager.mem_owners_of_servedBy hserved))
  cases call with
  | put k value ttlSeconds =>
    obtain rfl : k = key := hcall
    simp only [Gateway.step, begin, DistributedCacheCluster.routed, hnone, Gateway.proceed,
      Option.toList_some, List.map_cons, List.map_nil]
  | get k =>
    obtain rfl : k = key := hcall
    simp only [Gateway.step, begin, DistributedCacheCluster.routed, hnone, Gateway.proceed,
      Option.toList_some, List.map_cons, List.map_nil]
  | delete k =>
    obtain rfl : k = key := hcall
    simp only [Gateway.step, begin, DistributedCacheCluster.routed, hnone, Gateway.proceed,
      Option.toList_some, List.map_cons, List.map_nil]
  | heartbeat nodeId => exact hcall.elim
  | addNode node runtime => exact hcall.elim
  | removeNode nodeId => exact hcall.elim

end Abandoned

/-- **Dead nodes stay dead.** Some nodes are dead, and no call under way about a key involves them.
Then calls arrive, overlap, raise and end, nodes join and leave, the nodes are asked for heartbeats,
and the background loop goes on; but no heartbeat that one of these nodes answered is recorded, and
none of them is added. At the end they are dead still, and no call about a key involves one of them;
and a put, get or delete of a key all of whose owners are among them is answered at once with 503,
and changes nothing. -/
theorem dead_nodes_stay_dead {g g' : Gateway V} {t t' : Time} {es : List (GatewayEvent V)}
    (h : Abandoned dead g t)
    (hrun : Run (fun x e x' => ¬x.1.Revives dead e ∧ Gateway.TimedStep hashToInt x e x') (g, t) es
      (g', t')) :
    Abandoned dead g' t' ∧
      ∀ (clock : Clock) (call : Call V) (key : String), call.About key → (∀ i, t' ≤ clock i) →
        (∀ node ∈ g'.cluster.manager.ring.owners hashToInt key, node.nodeId ∈ dead) →
        g'.step hashToInt (.arrive clock call) =
          some ({ g' with
              arrived := g'.arrived + 1
              calls := Function.update g'.calls g'.arrived none },
            [.invoke g'.arrived call, .respond g'.arrived noLiveNodes]) := by
  have hend : Abandoned dead g' t' := hrun.invariant (I := fun x => Abandoned dead x.1 x.2)
    (fun _ _ _ hx hs => hx.step hs.1 hs.2) h
  exact ⟨hend, fun clock call key hcall hclock howners => hend.arrive_eq hcall hclock howners⟩

/-- A run at an instant. -/
private theorem timed_run {x x' : Trace V} {t : Time} {es : List (GatewayEvent V)}
    (h : Run (Trace.Step hashToInt) x es x') (hes : ∀ e ∈ es, e.Within t t)
    (hrevives : ∀ e ∈ es, ∀ g : Gateway V, ¬g.Revives dead e) :
    Run (fun x e x' => ¬x.1.Revives dead e ∧ Gateway.TimedStep hashToInt x e x') (x.gateway, t) es
      (x'.gateway, t) := by
  induction h with
  | nil x => exact .nil _
  | @cons x y x' e es hstep _ ih =>
    obtain ⟨answers, hstep, -⟩ := hstep
    have hfirst : Gateway.TimedStep hashToInt (x.gateway, t) e (y.gateway, t) :=
      ⟨le_rfl, hes e List.mem_cons_self, answers, hstep⟩
    exact .cons ⟨hrevives e List.mem_cons_self x.gateway, hfirst⟩
      (ih (fun e he => hes e (List.mem_cons_of_mem _ he))
        fun e he => hrevives e (List.mem_cons_of_mem _ he))

/-- In a small cluster all nodes are dead. One of them is asked for a heartbeat in vain, and the
other one is removed. -/
def sampleDead : List (GatewayEvent ℕ) :=
  [.arrive (fun _ => 20) (.get "k"), .arrive (fun _ => 20) (.heartbeat "b"), .raise 1,
    .arrive (fun _ => 20) (.removeNode "a"), .background (.begin 0)]

theorem dead_nodes_stay_dead_sample :
    ∃ g', Run (fun x e x' => ¬x.1.Revives {"a", "b"} e ∧ Gateway.TimedStep sampleHash x e x')
        (Gateway.init (sampleCluster ["a", "b"]), 20) sampleDead (g', 20) ∧
      Abandoned {"a", "b"} g' 20 := by
  have hdead : ∀ nodeId ∈ ["a", "b"],
      (Gateway.init (sampleCluster ["a", "b"])).cluster.manager.isAlive 20 nodeId = false := by
    decide +kernel
  have h : Abandoned {"a", "b"} (Gateway.init (sampleCluster ["a", "b"])) 20 :=
    ⟨fun nodeId hn => hdead nodeId (by simpa using hn), fun id state hstate => by cases hstate⟩
  obtain ⟨x', hrun, -⟩ := Trace.exists_run_where sampleHash (fun _ _ => True)
    ⟨Gateway.init (sampleCluster ["a", "b"]), []⟩ sampleDead (fun _ => true) (by decide +kernel)
  have htimed : Run
      (fun x e x' => ¬x.1.Revives {"a", "b"} e ∧ Gateway.TimedStep sampleHash x e x')
      (Gateway.init (sampleCluster ["a", "b"]), 20) sampleDead (x'.gateway, 20) :=
    timed_run (hrun.mono fun _ _ _ hs => hs.2) (by simp [sampleDead, GatewayEvent.Within])
      (by simp [sampleDead, Gateway.Revives])
  exact ⟨x'.gateway, htimed, (dead_nodes_stay_dead h htimed).1⟩

end DistributedCache
