import DistributedCache.Cluster.ConcurrentCalls
import DistributedCache.Cluster.Refinement

/-!
# In-process calls finish

The in-process transport looks the runtime of a node up in a table, and raises where the table
has none. Nothing is ever taken out of the table, so a node that was a member once keeps its
runtime, and a call that was routed to it is carried out even if the node has been removed in the
meantime. No call raises, and each call that waits is answered after at most four more steps of
its own.

## Main definitions

* `Attached` : every node that the gateway may still call has a runtime.
* `CallState.stepsLeft` : the measure of a waiting call.
* `AnswersWithin` : a call is answered after so many steps of its own.

## Main results

* `Attached.step` : all events at an in-process gateway keep that.
* `Attached.stepsLeft_of_isOf` : each step of a call answers it or leaves it fewer.
* `inProcess_calls_finish` : no call of a client and no write of the background loop raises.
-/

namespace DistributedCache

open Library Library.Linearizable DistributedCacheCluster

variable {V : Type*} {hashToInt : String → ℕ}

/-- The node that a call waits for. -/
def Await.node : Await V → NodeConfig
  | .put _ target _ _ _ | .get _ target _ | .delete _ target _ => target
  | .getReplica replica _ | .deleteReplica _ replica _ => replica
  | .heartbeat _ node => node

/-- The nodes that a waiting call may still send requests or writes to. -/
def Await.nodes : Await V → List NodeConfig
  | .put routing target _ _ _ | .get routing target _ | .delete routing target _ =>
    target :: routing.replica.toList
  | .getReplica replica _ | .deleteReplica _ replica _ => [replica]
  | .heartbeat _ node => [node]

/-- The reply is one to the request. -/
def Await.Replies : Await V → NodeReply V → Prop
  | .put _ _ _ _ _, .written _ | .delete _ _ _, .written _ | .deleteReplica _ _ _, .written _ => True
  | .get _ _ _, .read _ _ | .getReplica _ _, .read _ _ | .heartbeat _ _, .noted => True
  | _, _ => False

/-- The nodes that a waiting call may still call answer. -/
def CallState.Attached (t : NodeTransport V) : CallState V → Prop
  | .asking await => ∀ node ∈ await.nodes, t.Answers node.nodeId
  | .replied await reply => (∀ node ∈ await.nodes, t.Answers node.nodeId) ∧ await.Replies reply

/-- Every node that the gateway or its background loop may still call has a runtime. -/
structure Attached (hashToInt : String → ℕ) (g : Gateway V) : Prop where
  kind : g.cluster.transport.kind = .inProcess
  reachable : ∀ nodeId, g.cluster.transport.reachable nodeId = true
  coherent : g.cluster.manager.Coherent hashToInt
  members : ∀ nodeId ∈ g.cluster.manager.nodes, g.cluster.transport.Answers nodeId
  replicaWrites : ∀ w ∈ g.cluster.replicaWrites, g.cluster.transport.Answers w.node.nodeId
  targets : ∀ task ∈ g.cluster.rebalances, ∀ nodeId ∈ task.phase.targets,
    g.cluster.transport.Answers nodeId
  waits : ∀ id state, g.calls id = some state → state.Attached g.cluster.transport

/-! ### Runtimes stay -/

namespace NodeTransport

variable {t t' : NodeTransport V} {clock : Clock} {nodeId : String}

/-- A node with a runtime keeps one. -/
theorem answers_setRuntime {n : String} (h : t.Answers n) (rt : NodeRuntime V) :
    (t.setRuntime nodeId rt).Answers n := by
  obtain ⟨hreach, rt', hrt'⟩ := answers_iff.mp h
  refine answers_iff.mpr ⟨hreach, ?_⟩
  by_cases hn : n = nodeId
  · exact ⟨rt, by rw [hn]; exact Function.update_self _ _ _⟩
  · exact ⟨rt', (Function.update_of_ne hn _ _).trans hrt'⟩

/-- A request that is carried out changes the runtime of the node, and is replied to. -/
theorem perform_eq_some {await : Await V} {reply : NodeReply V}
    (h : t.perform clock await = some (reply, t')) :
    await.Replies reply ∧ ∃ rt, t' = t.setRuntime await.node.nodeId rt := by
  cases await with
  | put | get | getReplica | delete | deleteReplica =>
    obtain ⟨p, hp, heq⟩ := Option.map_eq_some_iff.mp h
    obtain ⟨rt, -, rfl⟩ := Option.map_eq_some_iff.mp hp
    obtain ⟨rfl, rfl⟩ := Prod.mk.inj heq
    exact ⟨trivial, _, rfl⟩
  | heartbeat nodeId node =>
    obtain ⟨t'', hp, heq⟩ := Option.map_eq_some_iff.mp h
    obtain ⟨rt, -, rfl⟩ := Option.map_eq_some_iff.mp hp
    obtain ⟨rfl, rfl⟩ := Prod.mk.inj heq
    exact ⟨trivial, _, rfl⟩

/-- A node with a runtime carries every request out. -/
theorem isSome_perform (clock : Clock) {await : Await V} (h : t.Answers await.node.nodeId) :
    (t.perform clock await).isSome := by
  obtain ⟨rt, hrt⟩ := Option.isSome_iff_exists.mp h
  cases await with
  | put | get | getReplica | delete | deleteReplica | heartbeat =>
    simp only [Await.node] at hrt
    simp only [perform, NodeTransport.put, NodeTransport.get, NodeTransport.delete,
      NodeTransport.heartbeat, hrt, Option.map_some, Option.isSome_some]

end NodeTransport

theorem CallState.Attached.mono {t t' : NodeTransport V} {state : CallState V}
    (h : state.Attached t) (hle : ∀ nodeId, t.Answers nodeId → t'.Answers nodeId) :
    state.Attached t' := by
  cases state with
  | asking await => exact fun node hnode => hle node.nodeId (h node hnode)
  | replied await reply => exact ⟨fun node hnode => hle node.nodeId (h.1 node hnode), h.2⟩

namespace Attached

variable {g g' : Gateway V} {c : DistributedCacheCluster V} {id : ℕ}

/-- The gateway keeps its nodes and calls them as before, or others that answer. -/
private theorem of_cluster (h : Attached hashToInt g)
    (hkind : c.transport.kind = .inProcess) (hreachable : ∀ n, c.transport.reachable n = true)
    (hle : ∀ n, g.cluster.transport.Answers n → c.transport.Answers n)
    (hcoherent : c.manager.Coherent hashToInt)
    (hmembers : ∀ n ∈ c.manager.nodes, c.transport.Answers n)
    (hwrites : ∀ w ∈ c.replicaWrites, c.transport.Answers w.node.nodeId)
    (htargets : ∀ task ∈ c.rebalances, ∀ n ∈ task.phase.targets, c.transport.Answers n) :
    Attached hashToInt { g with cluster := c } :=
  ⟨hkind, hreachable, hcoherent, hmembers, hwrites, htargets,
    fun id state hstate => (h.waits id state hstate).mono hle⟩

theorem wait (h : Attached hashToInt g) (id : ℕ) {s : CallState V}
    (hs : s.Attached g.cluster.transport) :
    Attached hashToInt { g with calls := Function.update g.calls id (some s) } :=
  { h with
    waits := fun other state hother => by
      rcases Gateway.of_update hother with ⟨-, hnew⟩ | hold
      · exact Option.some.inj hnew ▸ hs
      · exact h.waits other state hold }

theorem finish (h : Attached hashToInt g) (id : ℕ) :
    Attached hashToInt { g with calls := Function.update g.calls id none } :=
  { h with
    waits := fun other state' hother => by
      rcases Gateway.of_update hother with ⟨-, hnew⟩ | hold
      · cases hnew
      · exact h.waits other state' hold }

/-- Members answer, so the owners of a key do. -/
theorem owner (h : Attached hashToInt g) {key : String} {node : NodeConfig}
    (hnode : node ∈ g.cluster.manager.ring.owners hashToInt key) :
    g.cluster.transport.Answers node.nodeId :=
  h.members _ (OrderedDict.mem_iff_exists_get?.mpr
    ⟨node, h.coherent.get?_nodes_of_mem_owners hnode⟩)

/-- A request is carried out. -/
theorem perform (h : Attached hashToInt g) {await : Await V} {clock : Clock} {reply : NodeReply V}
    {transport : NodeTransport V} (hstate : g.calls id = some (.asking await))
    (hperform : g.cluster.transport.perform clock await = some (reply, transport)) :
    Attached hashToInt { g with
      cluster := { g.cluster with transport := transport }
      calls := Function.update g.calls id (some (.replied await reply)) } := by
  obtain ⟨hreplies, rt, rfl⟩ := NodeTransport.perform_eq_some hperform
  have hle : ∀ n, g.cluster.transport.Answers n →
      (g.cluster.transport.setRuntime await.node.nodeId rt).Answers n := fun n hn =>
    NodeTransport.answers_setRuntime hn rt
  have hcluster : Attached hashToInt { g with cluster := { g.cluster with
      transport := g.cluster.transport.setRuntime await.node.nodeId rt } } :=
    h.of_cluster h.kind h.reachable hle h.coherent (fun n hn => hle n (h.members n hn))
      (fun w hw => hle _ (h.replicaWrites w hw))
      fun task htask n hn => hle n (h.targets task htask n hn)
  exact hcluster.wait id ⟨fun node hnode => hle _ (h.waits id _ hstate node hnode), hreplies⟩

private theorem recordHeartbeat (h : Attached hashToInt g) (now : Time) (nodeId : String) :
    Attached hashToInt { g with cluster := { g.cluster with
      manager := g.cluster.manager.recordHeartbeat now nodeId } } :=
  h.of_cluster h.kind h.reachable (fun _ hn => hn) (h.coherent.recordHeartbeat now nodeId)
    (fun n hn => h.members n (by rwa [ClusterManager.nodes_recordHeartbeat] at hn)) h.replicaWrites
    h.targets

/-- A call goes on. -/
theorem resume (h : Attached hashToInt g) {await : Await V} {clock : Clock} {reply : NodeReply V}
    {p : CallProgress V × DistributedCacheCluster V}
    (hstate : g.calls id = some (.replied await reply))
    (hresume : g.cluster.resume clock await reply = some p) :
    Attached hashToInt (g.proceed id p).1 := by
  obtain ⟨hnodes, -⟩ := h.waits id _ hstate
  unfold DistributedCacheCluster.resume at hresume
  split at hresume
  · rename_i routing target key value ttlSeconds result
    split_ifs at hresume
    · obtain rfl := Option.some.inj hresume
      have hrecord := h.recordHeartbeat (clock 0) target.nodeId
      refine Attached.finish (g := { g with cluster := _ }) ?_ id
      refine hrecord.of_cluster hrecord.kind hrecord.reachable (fun _ hn => hn) hrecord.coherent
        hrecord.members (fun w hw => ?_) hrecord.targets
      rcases List.mem_append.mp hw with hw | hw
      · exact h.replicaWrites w hw
      · unfold replicaWriteOf at hw
        split at hw
        · cases hw
        · rename_i replica hother
          obtain rfl := List.mem_singleton.mp hw
          refine hnodes replica (List.mem_cons_of_mem _ (Option.mem_toList.mpr ?_))
          exact (Option.filter_eq_some_iff.mp hother).1
    · obtain rfl := Option.some.inj hresume
      exact h.finish id
  · rename_i routing target key isFound value
    split_ifs at hresume
    · obtain rfl := Option.some.inj hresume
      exact (h.recordHeartbeat (clock 0) target.nodeId).finish id
    · split at hresume
      · obtain rfl := Option.some.inj hresume
        exact h.finish id
      · rename_i replica hother
        obtain rfl := Option.some.inj hresume
        refine h.wait id (s := .asking _) fun node hnode => ?_
        obtain rfl := List.mem_singleton.mp hnode
        refine hnodes node (List.mem_cons_of_mem _ (Option.mem_toList.mpr ?_))
        exact (Option.filter_eq_some_iff.mp hother).1
  · obtain rfl := Option.some.inj hresume
    exact h.finish id
  · rename_i routing target key result
    split_ifs at hresume
    · split at hresume
      · obtain rfl := Option.some.inj hresume
        exact h.finish id
      · rename_i replica hother
        obtain rfl := Option.some.inj hresume
        refine h.wait id (s := .asking _) fun node hnode => ?_
        obtain rfl := List.mem_singleton.mp hnode
        refine hnodes node (List.mem_cons_of_mem _ (Option.mem_toList.mpr ?_))
        exact (Option.filter_eq_some_iff.mp hother).1
    · obtain rfl := Option.some.inj hresume
      exact h.finish id
  · obtain rfl := Option.some.inj hresume
    exact h.finish id
  · rename_i nodeId node
    obtain rfl := Option.some.inj hresume
    exact (h.recordHeartbeat (clock 0) nodeId).finish id
  · cases hresume

private theorem addNode (h : Attached hashToInt g) (clock : Clock) (node : NodeConfig)
    (runtime : Option (NodeRuntime V)) :
    Attached hashToInt
      { g with cluster := (g.cluster.addNode hashToInt clock node runtime).2 } := by
  rw [DistributedCacheCluster.addNode]
  split_ifs
  · exact h
  · have hregister : g.cluster.transport.registerNode (clock 0) node runtime =
        g.cluster.transport.setRuntime node.nodeId (runtime.getD (.createDefault (clock 0) node)) := by
      rw [NodeTransport.registerNode, h.kind]
    have hle : ∀ n, g.cluster.transport.Answers n →
        (g.cluster.transport.registerNode (clock 0) node runtime).Answers n := fun n hn => by
      rw [hregister]
      exact NodeTransport.answers_setRuntime hn _
    refine h.of_cluster ?_ (fun n => ?_) hle (h.coherent.addNode (clock 1) node) (fun n hn => ?_)
      (fun w hw => hle _ (h.replicaWrites w hw)) fun task htask n hn => ?_
    · exact (congrArg NodeTransport.kind hregister).trans h.kind
    · exact (congrFun (congrArg NodeTransport.reachable hregister) n).trans (h.reachable n)
    · rcases OrderedDict.mem_set.mp hn with rfl | hn
      · refine NodeTransport.answers_iff.mpr ⟨?_, ?_⟩
        · exact (congrFun (congrArg NodeTransport.reachable hregister) _).trans (h.reachable _)
        · exact ⟨_, (congrFun (congrArg NodeTransport.runtimes hregister) _).trans
            (Function.update_self _ _ _)⟩
      · exact hle n (h.members n hn)
    · rcases List.mem_append.mp htask with htask | htask
      · exact hle n (h.targets task htask n hn)
      · rw [List.mem_singleton.mp htask] at hn
        cases hn

private theorem removeNode (h : Attached hashToInt g) (nodeId : String) :
    Attached hashToInt { g with cluster := (g.cluster.removeNode nodeId).2 } := by
  rw [DistributedCacheCluster.removeNode]
  split_ifs
  · exact h
  · refine h.of_cluster h.kind h.reachable (fun _ hn => hn) (h.coherent.removeNode nodeId)
      (fun n hn => h.members n (OrderedDict.mem_pop.mp hn).2) h.replicaWrites fun task htask n hn => ?_
    rcases List.mem_append.mp htask with htask | htask
    · exact h.targets task htask n hn
    · rw [List.mem_singleton.mp htask] at hn
      cases hn

private theorem routed (h : Attached hashToInt g) (id : ℕ) (clock : Clock) (key : String)
    (await : RoutingDecision → NodeConfig → Await V)
    (hawait : ∀ routing target, (await routing target).nodes = target :: routing.replica.toList) :
    Attached hashToInt
      (g.proceed id (g.cluster.routed hashToInt clock key await, g.cluster)).1 := by
  rw [DistributedCacheCluster.routed]
  cases hserved : (g.cluster.manager.routeForKey hashToInt clock key).servedBy with
  | none => exact h.finish id
  | some target =>
    refine h.wait id (s := .asking _) fun node hnode => ?_
    rw [hawait, ClusterManager.replica_routeForKey] at hnode
    rcases List.mem_cons.mp hnode with rfl | hnode
    · exact h.owner (ClusterManager.mem_owners_of_servedBy hserved)
    · exact h.owner (List.mem_append_right _ hnode)

/-- A call arrives. -/
theorem arrive (h : Attached hashToInt g) (id : ℕ) (clock : Clock) (call : Call V) :
    Attached hashToInt (g.proceed id (g.cluster.begin hashToInt clock call)).1 := by
  cases call with
  | put key value ttlSeconds => exact h.routed id clock key _ fun _ _ => rfl
  | get key => exact h.routed id clock key _ fun _ _ => rfl
  | delete key => exact h.routed id clock key _ fun _ _ => rfl
  | heartbeat nodeId =>
    rw [begin]
    cases hnode : g.cluster.manager.getNode nodeId with
    | none => exact h.finish id
    | some node =>
      refine h.wait id (s := .asking _) fun node' hnode' => ?_
      obtain rfl := List.mem_singleton.mp hnode'
      refine h.members _ (OrderedDict.mem_iff_exists_get?.mpr ⟨node', ?_⟩)
      rw [h.coherent.key_eq nodeId node' hnode]
      exact hnode
  | addNode node runtime => exact (h.addNode clock node runtime).finish id
  | removeNode nodeId => exact (h.removeNode nodeId).finish id

/-- The background loop takes a step. -/
theorem background (h : Attached hashToInt g) {s : BackgroundStep}
    (hs : g.cluster.runBackground hashToInt s = some c) :
    Attached hashToInt { g with cluster := c } := by
  obtain ⟨hmanager, hsame, -, hwrites, -⟩ := frontKept_runBackground hs
  have hle : ∀ n, g.cluster.transport.Answers n → c.transport.Answers n := fun n hn =>
    hsame.answers_iff.mpr hn
  refine h.of_cluster (hsame.kind.trans h.kind) (fun n => by rw [hsame.reachable, h.reachable]) hle
    (hmanager ▸ h.coherent) (fun n hn => hle n (h.members n (hmanager ▸ hn)))
    (fun w hw => hle _ (h.replicaWrites w (hwrites.subset hw))) ?_
  have hids : (g.cluster.manager.getAllNodes.map NodeConfig.nodeId).Nodup := by
    rw [h.coherent.map_nodeId_getAllNodes]
    exact g.cluster.manager.nodes.keys_nodup
  have hall : ∀ n ∈ g.cluster.manager.getAllNodes.map NodeConfig.nodeId,
      g.cluster.transport.Answers n := fun n hn =>
    h.members n (by rwa [h.coherent.map_nodeId_getAllNodes] at hn)
  have htargets : ∀ {index : ℕ} {task : RebalanceTask V} {phase : RebalancePhase V},
      g.cluster.rebalances[index]? = some task → task.phase = phase →
        ∀ n ∈ phase.targets, g.cluster.transport.Answers n := by
    rintro index task phase htask rfl
    exact h.targets task (List.mem_of_getElem? htask)
  intro task' htask' n hn
  refine hle n ?_
  cases s with
  | replicate index clock outcome =>
    obtain ⟨w, -, rfl⟩ := runBackground_replicate hs
    exact h.targets task' htask' n hn
  | begin index =>
    obtain ⟨task, -, -, rfl⟩ := runBackground_begin hs
    rcases List.mem_or_eq_of_mem_set htask' with hold | rfl
    · exact h.targets task' hold n hn
    · exact hall n hn
  | snapshot index now outcome =>
    obtain ⟨task, ring, node, todo, snapshots, htask, hphase, ⟨-, rfl⟩ | ⟨entries, transport, -, rfl⟩⟩ :=
      runBackground_snapshot hs
    · rcases List.mem_or_eq_of_mem_set htask' with hold | rfl
      · exact h.targets task' hold n hn
      · cases hn
    · rcases List.mem_or_eq_of_mem_set htask' with hold | rfl
      · exact h.targets task' hold n hn
      · exact htargets htask hphase n (List.mem_cons_of_mem _ hn)
  | plan index now clock =>
    obtain ⟨task, ring, snapshots, htask, hphase, rfl⟩ := runBackground_plan hs
    rcases List.mem_or_eq_of_mem_set htask' with hold | rfl
    · exact h.targets task' hold n hn
    · exact hall n (plan_targets hids hn)
  | migrate index i clock outcome =>
    obtain ⟨task, ring, pending, call, htask, hphase, hcall, rfl⟩ := runBackground_migrate hs
    rcases List.mem_or_eq_of_mem_set htask' with hold | rfl
    · exact h.targets task' hold n hn
    · refine htargets htask hphase n ?_
      obtain ⟨call', hcall', rfl⟩ := List.mem_map.mp hn
      exact List.mem_map_of_mem (List.mem_of_mem_eraseIdx hcall')
  | cleanup nodeId now =>
    obtain rfl := Option.some.inj hs
    exact h.targets task' htask' n hn

/-- All events at an in-process gateway keep every node that it may call attached. -/
theorem step (h : Attached hashToInt g) {e : GatewayEvent V} {history : CallHistory V}
    (hstep : g.step hashToInt e = some (g', history)) : Attached hashToInt g' := by
  cases e with
  | arrive clock call =>
    obtain ⟨rfl, -⟩ := Prod.mk.inj (Option.some.inj hstep)
    exact Attached.arrive (g := { g with arrived := g.arrived + 1 })
      ⟨h.kind, h.reachable, h.coherent, h.members, h.replicaWrites, h.targets, h.waits⟩ g.arrived
      clock call
  | perform id clock =>
    rw [Gateway.step] at hstep
    split at hstep
    · rename_i await hstate
      obtain ⟨⟨reply, transport⟩, hperform, heq⟩ := Option.map_eq_some_iff.mp hstep
      obtain ⟨rfl, -⟩ := Prod.mk.inj heq
      exact h.perform hstate hperform
    · cases hstep
  | resume id clock =>
    rw [Gateway.step] at hstep
    split at hstep
    · rename_i await reply hstate
      obtain ⟨p, hresume, heq⟩ := Option.map_eq_some_iff.mp hstep
      obtain ⟨rfl, -⟩ := Prod.mk.inj heq.symm
      exact h.resume hstate hresume
    · cases hstep
  | raise id =>
    obtain ⟨state, -, heq⟩ := Option.map_eq_some_iff.mp hstep
    obtain ⟨rfl, -⟩ := Prod.mk.inj heq
    exact h.finish id
  | background s =>
    obtain ⟨c, hs, heq⟩ := Option.map_eq_some_iff.mp hstep
    obtain ⟨rfl, -⟩ := Prod.mk.inj heq
    exact h.background hs

end Attached

/-! ### Calls finish -/

/-- The event is a step of the call. -/
def GatewayEvent.isOf (id : ℕ) : GatewayEvent V → Bool
  | .perform other _ | .resume other _ => other == id
  | _ => false

/-- The call is answered after at most `n` steps of its own: whatever comes in between, as long as
the transport does not make it raise, it can take a step at every moment until it is answered, and
takes fewer than `n` steps before. -/
def AnswersWithin (hashToInt : String → ℕ) (id n : ℕ) (x : Trace V) : Prop :=
  ∀ es x', Run (Trace.Step hashToInt) x es x' → GatewayEvent.raise id ∉ es →
    ∃ later, x'.history = x.history ++ later ∧
      ((∃ r, .respond id r ∈ later) ∨ es.countP (GatewayEvent.isOf id) < n ∧
        ∀ clock, ∃ e x'', e.isOf id ∧ (e = .perform id clock ∨ e = .resume id clock) ∧
          Trace.Step hashToInt x' e x'')

/-- The call has no other node to ask afterwards. -/
def Await.isLast : Await V → Bool
  | .put _ _ _ _ _ | .getReplica _ _ | .deleteReplica _ _ _ | .heartbeat _ _ => true
  | .get _ _ _ | .delete _ _ _ => false

/-- How many steps a waiting call takes at most until it is answered. -/
def CallState.stepsLeft : CallState V → ℕ
  | .asking await => if await.isLast then 2 else 4
  | .replied await _ => if await.isLast then 1 else 3

theorem CallState.stepsLeft_le (state : CallState V) : state.stepsLeft ≤ 4 := by
  cases state with
  | asking await => cases h : await.isLast <;> simp [stepsLeft, h]
  | replied await reply => cases h : await.isLast <;> simp [stepsLeft, h]

theorem CallState.stepsLeft_pos (state : CallState V) : 0 < state.stepsLeft := by
  cases state with
  | asking await => cases h : await.isLast <;> simp [stepsLeft, h]
  | replied await reply => cases h : await.isLast <;> simp [stepsLeft, h]

/-- A request that is carried out is a step less. -/
theorem CallState.stepsLeft_replied (await : Await V) (reply : NodeReply V) :
    (replied await reply).stepsLeft + 1 = (asking await).stepsLeft := by
  cases h : await.isLast <;> simp [stepsLeft, h]

/-- A call that goes on is answered, or asks the replica at last. -/
private theorem resume_cases (c : DistributedCacheCluster V) (clock : Clock) {await : Await V}
    {reply : NodeReply V} (h : await.Replies reply) :
    (∃ r c', c.resume clock await reply = some (.finish (some r), c')) ∨
      await.isLast = false ∧
        ∃ next c', c.resume clock await reply = some (.await next, c') ∧ next.isLast := by
  unfold Await.Replies at h
  split at h
  · rw [resume]
    split_ifs <;> exact Or.inl ⟨_, _, rfl⟩
  · rw [resume]
    split_ifs
    · split
      · exact Or.inl ⟨_, _, rfl⟩
      · exact Or.inr ⟨rfl, _, _, rfl, rfl⟩
    · exact Or.inl ⟨_, _, rfl⟩
  · exact Or.inl ⟨_, _, rfl⟩
  · rw [resume]
    split_ifs
    · exact Or.inl ⟨_, _, rfl⟩
    · split
      · exact Or.inl ⟨_, _, rfl⟩
      · exact Or.inr ⟨rfl, _, _, rfl, rfl⟩
  · exact Or.inl ⟨_, _, rfl⟩
  · exact Or.inl ⟨_, _, rfl⟩
  · exact h.elim

namespace Gateway

variable {g g' : Gateway V} {e : GatewayEvent V} {history : CallHistory V} {id : ℕ}

private theorem arrived_proceed (g : Gateway V) (id : ℕ)
    (p : CallProgress V × DistributedCacheCluster V) : (g.proceed id p).1.arrived = g.arrived := by
  obtain ⟨progress, c⟩ := p
  cases progress <;> rfl

private theorem calls_proceed_of_ne {other : ℕ} (h : other ≠ id) (g : Gateway V)
    (p : CallProgress V × DistributedCacheCluster V) :
    (g.proceed id p).1.calls other = g.calls other := by
  obtain ⟨progress, c⟩ := p
  cases progress <;> exact Function.update_of_ne h _ _

/-- The number of a call that waits is one of a call that arrived. -/
def Numbered (g : Gateway V) : Prop := ∀ id, (g.calls id).isSome → id < g.arrived

/-- An event is the arrival of a call, or concerns one that waits, or none. -/
private theorem step_cases (hstep : g.step hashToInt e = some (g', history)) :
    g'.arrived = g.arrived + 1 ∧ (∀ id ≠ g.arrived, g'.calls id = g.calls id) ∨
      g'.arrived = g.arrived ∧ ((∀ id, g'.calls id = g.calls id) ∨
        ∃ id, (g.calls id).isSome ∧ (e.isOf id ∨ e = .raise id) ∧
          ∀ other ≠ id, g'.calls other = g.calls other) := by
  cases e with
  | arrive clock call =>
    obtain ⟨rfl, -⟩ := Prod.mk.inj (Option.some.inj hstep)
    exact Or.inl ⟨arrived_proceed _ _ _, fun id hne => calls_proceed_of_ne hne _ _⟩
  | perform id clock =>
    rw [Gateway.step] at hstep
    split at hstep
    · rename_i await hstate
      obtain ⟨p, -, heq⟩ := Option.map_eq_some_iff.mp hstep
      obtain ⟨rfl, -⟩ := Prod.mk.inj heq
      exact Or.inr ⟨rfl, Or.inr ⟨id, by rw [hstate]; rfl, Or.inl (beq_self_eq_true id),
        fun other hne => Function.update_of_ne hne _ _⟩⟩
    · cases hstep
  | resume id clock =>
    rw [Gateway.step] at hstep
    split at hstep
    · rename_i await reply hstate
      obtain ⟨p, -, heq⟩ := Option.map_eq_some_iff.mp hstep
      obtain ⟨rfl, -⟩ := Prod.mk.inj heq.symm
      exact Or.inr ⟨arrived_proceed _ _ _, Or.inr ⟨id, by rw [hstate]; rfl,
        Or.inl (beq_self_eq_true id), fun other hne => calls_proceed_of_ne hne _ _⟩⟩
    · cases hstep
  | raise id =>
    obtain ⟨state, hstate, heq⟩ := Option.map_eq_some_iff.mp hstep
    obtain ⟨rfl, -⟩ := Prod.mk.inj heq
    exact Or.inr ⟨rfl, Or.inr ⟨id, by rw [hstate]; rfl, Or.inr rfl,
      fun other hne => Function.update_of_ne hne _ _⟩⟩
  | background s =>
    obtain ⟨c, -, heq⟩ := Option.map_eq_some_iff.mp hstep
    obtain ⟨rfl, -⟩ := Prod.mk.inj heq
    exact Or.inr ⟨rfl, Or.inl fun _ => rfl⟩

theorem Numbered.step (h : g.Numbered) (hstep : g.step hashToInt e = some (g', history)) :
    g'.Numbered := by
  intro other hother
  rcases step_cases hstep with ⟨harrived, hcalls⟩ | ⟨harrived, hcalls | ⟨id, hid, -, hcalls⟩⟩
  · rw [harrived]
    by_cases hnew : other = g.arrived
    · exact hnew ▸ Nat.lt_succ_self _
    · rw [hcalls other hnew] at hother
      exact Nat.lt_succ_of_lt (h other hother)
  · rw [harrived]
    rw [hcalls] at hother
    exact h other hother
  · rw [harrived]
    by_cases hne : other = id
    · exact hne ▸ h id hid
    · rw [hcalls other hne] at hother
      exact h other hother

/-- An event leaves the calls that it is no step of, unless it makes them raise. -/
theorem calls_step (hid : id < g.arrived) (hof : e.isOf id = false) (hraise : e ≠ .raise id)
    (hstep : g.step hashToInt e = some (g', history)) : g'.calls id = g.calls id := by
  rcases step_cases hstep with ⟨-, hcalls⟩ | ⟨-, hcalls | ⟨other, -, hevent, hcalls⟩⟩
  · exact hcalls id hid.ne
  · exact hcalls id
  · refine hcalls id fun heq => ?_
    subst heq
    rcases hevent with hof' | heq
    · rw [hof] at hof'
      cases hof'
    · exact hraise heq

end Gateway

section Finish

variable {x x' : Trace V} {id : ℕ}

/-- A call that waits can take a step. -/
theorem Attached.exists_step (h : Attached hashToInt x.gateway) {state : CallState V}
    (hstate : x.gateway.calls id = some state) (clock : Clock) :
    ∃ e x'', e.isOf id ∧ (e = .perform id clock ∨ e = .resume id clock) ∧
      Trace.Step hashToInt x e x'' := by
  cases state with
  | asking await =>
    have hanswers : x.gateway.cluster.transport.Answers await.node.nodeId := by
      refine h.waits id _ hstate await.node ?_
      cases await <;> exact List.mem_cons_self
    obtain ⟨⟨reply, transport⟩, hperform⟩ :=
      Option.isSome_iff_exists.mp (NodeTransport.isSome_perform clock hanswers)
    refine ⟨.perform id clock, ⟨{ x.gateway with
      cluster := { x.gateway.cluster with transport := transport }
      calls := Function.update x.gateway.calls id (some (.replied await reply)) }, x.history ++ []⟩,
      by simp [GatewayEvent.isOf], Or.inl rfl, [], ?_, rfl⟩
    simp [Gateway.step, hstate, hperform]
  | replied await reply =>
    obtain ⟨-, hreplies⟩ := h.waits id _ hstate
    have hresume : ∃ p, x.gateway.cluster.resume clock await reply = some p := by
      rcases resume_cases x.gateway.cluster clock hreplies with
        ⟨r, c', hresume⟩ | ⟨-, next, c', hresume, -⟩
      · exact ⟨_, hresume⟩
      · exact ⟨_, hresume⟩
    obtain ⟨p, hresume⟩ := hresume
    refine ⟨.resume id clock, ⟨(x.gateway.proceed id p).1,
      x.history ++ (x.gateway.proceed id p).2⟩, by simp [GatewayEvent.isOf], Or.inr rfl, _, ?_, rfl⟩
    simp [Gateway.step, hstate, hresume]

/-- A step of a call answers it, or leaves it fewer steps. -/
theorem Attached.stepsLeft_of_isOf {g g' : Gateway V} {history : CallHistory V}
    (h : Attached hashToInt g) {state : CallState V} (hstate : g.calls id = some state)
    {e : GatewayEvent V} (hof : e.isOf id) (hstep : g.step hashToInt e = some (g', history)) :
    (∃ r, .respond id r ∈ history) ∨
      ∃ state', g'.calls id = some state' ∧ state'.stepsLeft + 1 ≤ state.stepsLeft := by
  cases e with
  | perform other clock =>
    obtain rfl : other = id := by simpa [GatewayEvent.isOf] using hof
    rw [Gateway.step, hstate] at hstep
    cases state with
    | asking await =>
      obtain ⟨p, -, heq⟩ := Option.map_eq_some_iff.mp hstep
      obtain ⟨rfl, -⟩ := Prod.mk.inj heq
      exact Or.inr ⟨_, Function.update_self _ _ _, (CallState.stepsLeft_replied await p.1).le⟩
    | replied await reply => cases hstep
  | resume other clock =>
    obtain rfl : other = id := by simpa [GatewayEvent.isOf] using hof
    rw [Gateway.step, hstate] at hstep
    cases state with
    | asking await => cases hstep
    | replied await reply =>
      obtain ⟨-, hreplies⟩ := h.waits other _ hstate
      rcases resume_cases g.cluster clock hreplies with
        ⟨r, c', hresume⟩ | ⟨hlast, next, c', hresume, hnext⟩
      · simp only [hresume, Option.map_some] at hstep
        obtain ⟨-, rfl⟩ := Prod.mk.inj (Option.some.inj hstep)
        exact Or.inl ⟨r, List.mem_singleton_self _⟩
      · simp only [hresume, Option.map_some] at hstep
        obtain ⟨rfl, -⟩ := Prod.mk.inj (Option.some.inj hstep)
        refine Or.inr ⟨_, Function.update_self _ _ _, ?_⟩
        simp [CallState.stepsLeft, hlast, hnext]
  | arrive clock call => cases hof
  | raise other => cases hof
  | background s => cases hof

private theorem Attached.of_run {es : List (GatewayEvent V)}
    (hrun : Run (Trace.Step hashToInt) x es x') (h : Attached hashToInt x.gateway)
    (hnumbered : x.gateway.Numbered) : Attached hashToInt x'.gateway ∧ x'.gateway.Numbered := by
  refine hrun.invariant (I := fun x : Trace V => Attached hashToInt x.gateway ∧ x.gateway.Numbered)
    (fun x e x' hx hstep => ?_) ⟨h, hnumbered⟩
  obtain ⟨history, hstep, -⟩ := hstep
  exact ⟨hx.1.step hstep, hx.2.step hstep⟩

/-- Along a run the steps that a call has taken and those that are left do not become more. -/
private theorem Attached.stepsLeft_of_run {es : List (GatewayEvent V)}
    (hrun : Run (Trace.Step hashToInt) x es x') (hraise : GatewayEvent.raise id ∉ es)
    (h : Attached hashToInt x.gateway) (hnumbered : x.gateway.Numbered) {state : CallState V}
    (hstate : x.gateway.calls id = some state) :
    ∃ later, x'.history = x.history ++ later ∧ ((∃ r, .respond id r ∈ later) ∨
      ∃ state', x'.gateway.calls id = some state' ∧
        state'.stepsLeft + es.countP (GatewayEvent.isOf id) ≤ state.stepsLeft) := by
  induction hrun generalizing state with
  | nil x => exact ⟨[], (List.append_nil _).symm, Or.inr ⟨state, hstate, le_rfl⟩⟩
  | @cons x y x' e es hstep hrun ih =>
    obtain ⟨history, hstep, hhistory⟩ := hstep
    have hmore : ∃ later, x'.history = y.history ++ later :=
      hrun.invariant (I := fun z : Trace V => ∃ later, z.history = y.history ++ later)
        (fun z e z' ⟨later, hlater⟩ ⟨new, _, hnew⟩ =>
          ⟨later ++ new, by rw [hnew, hlater, List.append_assoc]⟩) ⟨[], (List.append_nil _).symm⟩
    have hrest {s : CallState V} (hs : y.gateway.calls id = some s) :=
      ih (fun hmem => hraise (List.mem_cons_of_mem _ hmem)) (h.step hstep) (hnumbered.step hstep) hs
    cases hof : e.isOf id with
    | true =>
      rcases h.stepsLeft_of_isOf hstate hof hstep with ⟨r, hr⟩ | ⟨next, hnext, hle⟩
      · obtain ⟨later, hlater⟩ := hmore
        exact ⟨history ++ later, by rw [hlater, hhistory, List.append_assoc],
          Or.inl ⟨r, List.mem_append_left _ hr⟩⟩
      · obtain ⟨later, hlater, hend⟩ := hrest hnext
        refine ⟨history ++ later, by rw [hlater, hhistory, List.append_assoc], ?_⟩
        refine hend.imp (fun ⟨r, hr⟩ => ⟨r, List.mem_append_right _ hr⟩)
          fun ⟨last, hlast, hsum⟩ => ⟨last, hlast, ?_⟩
        rw [List.countP_cons_of_pos hof]
        omega
    | false =>
      have hkept : y.gateway.calls id = some state := by
        rw [Gateway.calls_step (hnumbered id (by rw [hstate]; rfl)) hof
          (fun heq => hraise (heq ▸ List.mem_cons_self)) hstep, hstate]
      obtain ⟨later, hlater, hend⟩ := hrest hkept
      refine ⟨history ++ later, by rw [hlater, hhistory, List.append_assoc], ?_⟩
      refine hend.imp (fun ⟨r, hr⟩ => ⟨r, List.mem_append_right _ hr⟩)
        fun ⟨last, hlast, hsum⟩ => ⟨last, hlast, ?_⟩
      rwa [List.countP_cons_of_neg (by rw [hof]; exact Bool.false_ne_true)]

/-- A waiting call is answered after at most four steps of its own. -/
theorem Attached.answersWithin (h : Attached hashToInt x.gateway)
    (hnumbered : x.gateway.Numbered) {state : CallState V}
    (hstate : x.gateway.calls id = some state) : AnswersWithin hashToInt id 4 x := by
  intro es x' hrun hraise
  obtain ⟨hend, -⟩ := Attached.of_run hrun h hnumbered
  obtain ⟨later, hlater, hanswered | ⟨last, hlast, hsum⟩⟩ :=
    stepsLeft_of_run hrun hraise h hnumbered hstate
  · exact ⟨later, hlater, Or.inl hanswered⟩
  · refine ⟨later, hlater, Or.inr ⟨?_, hend.exists_step hlast⟩⟩
    have hpos := last.stepsLeft_pos
    have hle := state.stepsLeft_le
    omega

end Finish

/-- **In-process calls finish**: in every run of a gateway with the in-process transport whose
members have runtimes at first, whatever the overlaps and the changes of the membership, every
call that waits is answered after at most four more steps of its own, with any other events in
between, and neither a write of the background loop nor a snapshot of a rebalance meets a node
without a runtime. -/
theorem inProcess_calls_finish {manager : ClusterManager} {t : NodeTransport V}
    (hmanager : manager.Coherent hashToInt) (hkind : t.kind = .inProcess)
    (hreachable : ∀ nodeId, t.reachable nodeId = true)
    (hmembers : ∀ nodeId ∈ manager.nodes, (t.runtimes nodeId).isSome)
    {es : List (GatewayEvent V)} {x : Trace V}
    (hrun : Run (Trace.Step hashToInt) ⟨.init (.init manager t), []⟩ es x) :
    (∀ id state, x.gateway.calls id = some state → AnswersWithin hashToInt id 4 x) ∧
      (∀ w ∈ x.gateway.cluster.replicaWrites,
        x.gateway.cluster.transport.Answers w.node.nodeId) ∧
      ∀ task ∈ x.gateway.cluster.rebalances, ∀ nodeId ∈ task.phase.targets,
        x.gateway.cluster.transport.Answers nodeId := by
  have hstart : Attached hashToInt (Gateway.init (DistributedCacheCluster.init manager t)) := by
    refine ⟨hkind, hreachable, hmanager, fun n hn => ?_, fun w hw => ?_, fun task htask => ?_,
      fun id state hstate => ?_⟩
    · exact NodeTransport.answers_iff.mpr
        ⟨hreachable n, Option.isSome_iff_exists.mp (hmembers n hn)⟩
    · cases hw
    · cases htask
    · cases hstate
  obtain ⟨hend, hnumbered⟩ := Attached.of_run hrun hstart fun id hid => by cases hid
  exact ⟨fun id state hstate => hend.answersWithin hnumbered hstate, hend.replicaWrites,
    hend.targets⟩

theorem inProcess_calls_finish_sample : ∃ x : Trace ℕ,
    (x.gateway.calls 1).isSome = true ∧ AnswersWithin sampleHash 1 4 x := by
  obtain ⟨x, hrun, hwaits⟩ := Trace.exists_run_where sampleHash (fun _ _ => True)
    ⟨.init (sampleCluster ["m", "n"]), []⟩ (sampleOverlap.take 4)
    (fun x => (x.gateway.calls 1).isSome) (by decide +kernel)
  obtain ⟨state, hstate⟩ := Option.isSome_iff_exists.mp hwaits
  have hmembers : ∀ nodeId ∈ (sampleCluster ["m", "n"]).manager.nodes,
      ((sampleCluster ["m", "n"]).transport.runtimes nodeId).isSome := fun nodeId hn =>
    Option.isSome_iff_exists.mpr
      (NodeTransport.answers_iff.mp (sampleCluster_answers ["m", "n"] nodeId hn)).2
  exact ⟨x, hwaits, (inProcess_calls_finish (sampleCluster_reachable ["m", "n"]).coherent rfl
    (fun _ => rfl) hmembers (hrun.mono fun _ _ _ hstep => hstep.2)).1 1 state hstate⟩

end DistributedCache
