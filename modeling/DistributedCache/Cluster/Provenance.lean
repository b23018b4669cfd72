import DistributedCache.Cluster.ConcurrentCalls
import DistributedCache.Cluster.Copies
import DistributedCache.Cluster.KeyView

/-!
# Where the values come from

Whatever happens at the gateway (overlapping calls, lifetimes, evictions, changes of the
membership, calls and background writes that fail or come late), no value is made up: what a get
answers was stored under its key on some node at first, or came in under that key by a put or in
the store of a node that joined, and this before the get was answered.

## Main definitions

* `CameIn` : the value came in under the key.
* `DistributedCacheCluster.Sourced` : whatever the nodes hold and the background loop writes came
  in.

## Main results

* `Recorded.step` : all values that are around came in.
* `answered_values_came_in` : so did the values that were answered.
-/

namespace DistributedCache

open Library Library.Linearizable DistributedCacheCluster

variable {V : Type*} {hashToInt : String → ℕ}

/-- The value was stored under the key at first, or came in under it by a put or with a node. -/
inductive CameIn (t : NodeTransport V) (history : CallHistory V) (key : String) (v : V) : Prop
  | stored {nodeId : String} {entry : CacheEntry V} (hentry : t.lookup nodeId key = some entry)
      (hvalue : entry.value = some v)
  | put {id : ℕ} {ttlSeconds : Option Time}
      (hput : .invoke id (.put key (some v) ttlSeconds) ∈ history)
  | joined {id : ℕ} {node : NodeConfig} {rt : NodeRuntime V} {entry : CacheEntry V}
      (hadd : .invoke id (.addNode node (some rt)) ∈ history)
      (hentry : rt.store.entries.get? key = some entry) (hvalue : entry.value = some v)

theorem CameIn.mono {t : NodeTransport V} {history history' : CallHistory V} {key : String} {v : V}
    (h : CameIn t history key v) (hsub : history ⊆ history') : CameIn t history' key v := by
  cases h with
  | stored hentry hvalue => exact .stored hentry hvalue
  | put hput => exact .put (hsub hput)
  | joined hadd hentry hvalue => exact .joined (hsub hadd) hentry hvalue

/-! ### The cluster -/

/-- All values of a snapshot and of the scheduled puts meet `P`. -/
def RebalancePhase.Sourced (P : String → V → Prop) : RebalancePhase V → Prop
  | .submitted => True
  | .collecting _ _ snapshots => ∀ nodeId key entry v,
      snapshots.seen key nodeId = some (some entry) → entry.value = some v → P key v
  | .migrating _ pending => ∀ node key v ttlSeconds,
      .put node key (some v) ttlSeconds ∈ pending → P key v

namespace DistributedCacheCluster

/-- All values that nodes hold and that the background loop writes meet `P`. -/
structure Sourced (P : String → V → Prop) (c : DistributedCacheCluster V) : Prop where
  transport : ∀ nodeId key entry v, c.transport.lookup nodeId key = some entry →
    entry.value = some v → P key v
  replicaWrites : ∀ w ∈ c.replicaWrites, ∀ v, w.value = some v → P w.key v
  rebalances : ∀ task ∈ c.rebalances, task.phase.Sourced P

variable {P Q : String → V → Prop} {c c' : DistributedCacheCluster V} {key : String}

theorem Sourced.mono (h : c.Sourced P) (hle : ∀ key v, P key v → Q key v) : c.Sourced Q where
  transport nodeId key entry v hentry hvalue := hle _ _ (h.transport nodeId key entry v hentry hvalue)
  replicaWrites w hw v hv := hle _ _ (h.replicaWrites w hw v hv)
  rebalances task htask := by
    have hphase := h.rebalances task htask
    cases hp : task.phase with
    | submitted => trivial
    | collecting ring todo snapshots =>
      rw [hp] at hphase
      exact fun nodeId key entry v hseen hvalue => hle _ _ (hphase nodeId key entry v hseen hvalue)
    | migrating ring pending =>
      rw [hp] at hphase
      exact fun node key v ttlSeconds hput => hle _ _ (hphase node key v ttlSeconds hput)

/-- The calls of the planner put what the snapshots show. -/
private theorem sourced_plan {x : PlanInput V} {change : TopologyChange}
    {ring : ConsistentHashRing}
    (h : (RebalancePhase.collecting ring [] x.snapshots).Sourced P) :
    (RebalancePhase.migrating ring (x.plan hashToInt change)).Sourced P := by
  intro node key v ttlSeconds hput
  obtain ⟨-, entry, nodeId, hmigration, hvalue, -⟩ := PlanInput.put_mem_plan_iff.mp hput
  rw [PlanInput.migration] at hmigration
  split_ifs at hmigration
  obtain ⟨entry', hsource, hmigration⟩ := Option.bind_eq_some_iff.mp hmigration
  obtain ⟨ttl, -, heq⟩ := Option.map_eq_some_iff.mp hmigration
  obtain ⟨rfl, -⟩ := Prod.mk.inj heq
  obtain ⟨source, hseen⟩ := PlanInput.source_eq_some hsource
  exact h source key entry' v hseen hvalue.symm

private theorem sourced_setPhase (h : c.Sourced P) {transport : NodeTransport V}
    (htransport : ∀ nodeId key entry, transport.lookup nodeId key = some entry →
      c.transport.lookup nodeId key = some entry ∨ ∀ v, entry.value = some v → P key v)
    {index : ℕ} {task : RebalanceTask V} {phase : RebalancePhase V} (hphase : phase.Sourced P) :
    ({ c with transport := transport }.setPhase index task phase).Sourced P where
  transport nodeId key entry v hentry hvalue := by
    rcases htransport nodeId key entry hentry with hold | hnew
    · exact h.transport nodeId key entry v hold hvalue
    · exact hnew v hvalue
  replicaWrites := h.replicaWrites
  rebalances := forall_setPhase (c := c) h.rebalances hphase

/-- Background steps move values from node to node and make none. -/
theorem Sourced.runBackground (h : c.Sourced P) {s : BackgroundStep}
    (hs : c.runBackground hashToInt s = some c') : c'.Sourced P := by
  cases s with
  | replicate index clock outcome =>
    obtain ⟨w, hw, rfl⟩ := runBackground_replicate hs
    refine ⟨fun nodeId key entry v hentry hvalue => ?_,
      fun w' hw' => h.replicaWrites w' (List.mem_of_mem_eraseIdx hw'), h.rebalances⟩
    rcases NodeTransport.lookup_of_limitedPut hentry with hold | ⟨-, rfl, hnew, -⟩
    · exact h.transport nodeId key entry v hold hvalue
    · exact h.replicaWrites w (List.mem_of_getElem? hw) v ((CacheStore.value_of_putEntry hnew).symm.trans hvalue)
  | begin index =>
    obtain ⟨task, -, -, rfl⟩ := runBackground_begin hs
    refine sourced_setPhase h (fun _ _ _ hentry => Or.inl hentry) fun nodeId key entry v hseen => ?_
    simp [Snapshots.seen] at hseen
  | snapshot index now outcome =>
    obtain ⟨task, ring, node, todo, snapshots, htask, hphase, hs⟩ := runBackground_snapshot hs
    have htaskPhase := h.rebalances task (List.mem_of_getElem? htask)
    rw [hphase] at htaskPhase
    rcases hs with ⟨-, rfl⟩ | ⟨entries, transport, htry, rfl⟩
    · refine sourced_setPhase h (fun _ _ _ hentry => Or.inl hentry) fun node key v ttl hput => ?_
      cases hput
    · obtain ⟨hshown, hleft⟩ := NodeTransport.lookup_of_trySnapshot htry
      refine sourced_setPhase h (fun n key entry hentry => Or.inl (hleft n key entry hentry))
        fun nodeId key entry v hseen hvalue => ?_
      obtain ⟨entries', hget, hentry⟩ := seen_eq_some.mp hseen
      rw [OrderedDict.get?_set] at hget
      split_ifs at hget
      · rw [← Option.some.inj hget] at hentry
        exact h.transport node.nodeId key entry v (hshown key entry hentry) hvalue
      · exact htaskPhase nodeId key entry v (seen_eq_some.mpr ⟨entries', hget, hentry⟩) hvalue
  | plan index now clock =>
    obtain ⟨task, ring, snapshots, htask, hphase, rfl⟩ := runBackground_plan hs
    have htaskPhase := h.rebalances task (List.mem_of_getElem? htask)
    rw [hphase] at htaskPhase
    exact sourced_setPhase h (fun _ _ _ hentry => Or.inl hentry)
      (sourced_plan (x := c.planInput task ring snapshots now clock) htaskPhase)
  | migrate index i clock outcome =>
    obtain ⟨task, ring, pending, call, htask, hphase, hcall, rfl⟩ := runBackground_migrate hs
    have htaskPhase := h.rebalances task (List.mem_of_getElem? htask)
    rw [hphase] at htaskPhase
    refine sourced_setPhase h (fun nodeId key entry hentry => ?_) fun node key v ttl hput =>
      htaskPhase node key v ttl (List.mem_of_mem_eraseIdx hput)
    cases call with
    | put node k value ttlSeconds =>
      refine (NodeTransport.lookup_of_limitedPut hentry).imp_right ?_
      rintro ⟨-, rfl, hnew, -⟩ v hvalue
      obtain rfl := (CacheStore.value_of_putEntry hnew).symm.trans hvalue
      exact htaskPhase node k v ttlSeconds (List.mem_of_getElem? hcall)
    | delete node k => exact Or.inl (NodeTransport.lookup_of_limitedDelete hentry)
  | cleanup nodeId now =>
    obtain rfl := Option.some.inj hs
    exact ⟨fun n key entry v hentry =>
      h.transport n key entry v (NodeTransport.lookup_of_cleanup hentry), h.replicaWrites,
      h.rebalances⟩

/-- A topology change brings in the store of the node that joins. -/
private theorem Sourced.addNode (h : c.Sourced P) (clock : Clock) (node : NodeConfig)
    (runtime : Option (NodeRuntime V))
    (hjoins : ∀ rt, runtime = some rt → ∀ key entry v, rt.store.entries.get? key = some entry →
      entry.value = some v → P key v) :
    (c.addNode hashToInt clock node runtime).2.Sourced P := by
  rw [DistributedCacheCluster.addNode]
  split_ifs
  · exact h
  · refine ⟨fun n key entry v hentry hvalue => ?_, h.replicaWrites, fun task htask => ?_⟩
    · rcases NodeTransport.lookup_of_registerNode hentry with hold | ⟨-, rt, hrt, hnew⟩
      · exact h.transport n key entry v hold hvalue
      · exact hjoins rt hrt key entry v hnew hvalue
    · rcases List.mem_append.mp htask with htask | htask
      · exact h.rebalances task htask
      · rw [List.mem_singleton.mp htask]
        trivial

private theorem Sourced.removeNode (h : c.Sourced P) (nodeId : String) :
    (c.removeNode nodeId).2.Sourced P := by
  rw [DistributedCacheCluster.removeNode]
  split_ifs
  · exact h
  · refine ⟨h.transport, h.replicaWrites, fun task htask => ?_⟩
    rcases List.mem_append.mp htask with htask | htask
    · exact h.rebalances task htask
    · rw [List.mem_singleton.mp htask]
      trivial

end DistributedCacheCluster

/-! ### The calls -/

/-- The value that a waiting get has been told meets `P`. -/
def CallState.Sourced (P : String → V → Prop) : CallState V → Prop
  | .replied await (.read true value) => ∃ key v, await.call = .get key ∧ value = some v ∧ P key v
  | _ => True

/-- Everything that is around came in: what the nodes have, what the calls were told, and what
they answered. -/
structure Recorded (t : NodeTransport V) (x : Trace V) : Prop where
  cluster : x.gateway.cluster.Sourced (CameIn t x.history)
  invoked : ∀ id state, x.gateway.calls id = some state →
    .invoke id state.await.call ∈ x.history
  waits : ∀ id state, x.gateway.calls id = some state → state.Sourced (CameIn t x.history)
  answered : ∀ h₁ h₂ id r value, x.history = h₁ ++ .respond id r :: h₂ → r.value = some value →
    ∃ key v, value = some v ∧ .invoke id (.get key) ∈ h₁ ∧ CameIn t h₁ key v

theorem CallState.Sourced.mono {P Q : String → V → Prop} {state : CallState V}
    (h : state.Sourced P) (hle : ∀ key v, P key v → Q key v) : state.Sourced Q := by
  unfold CallState.Sourced at h ⊢
  split at h
  · obtain ⟨key, v, hcall, rfl, hP⟩ := h
    exact ⟨key, v, hcall, rfl, hle key v hP⟩
  · trivial

/-- What a node tells a waiting get came in. -/
private theorem sourced_perform {P : String → V → Prop} {c : DistributedCacheCluster V}
    {clock : Clock} {await : Await V} {reply : NodeReply V} {transport : NodeTransport V}
    (h : c.Sourced P) (hput : ∀ key v ttlSeconds, await.call = .put key (some v) ttlSeconds → P key v)
    (hperform : c.transport.perform clock await = some (reply, transport)) :
    { c with transport := transport }.Sourced P ∧ (CallState.replied await reply).Sourced P := by
  have hkeep : (∀ n key entry, transport.lookup n key = some entry →
      c.transport.lookup n key = some entry) → { c with transport := transport }.Sourced P :=
    fun hle => ⟨fun n key entry v hentry => h.transport n key entry v (hle n key entry hentry),
      h.replicaWrites, h.rebalances⟩
  cases await with
  | put routing target key value ttlSeconds =>
    obtain ⟨p, hp, heq⟩ := Option.map_eq_some_iff.mp hperform
    obtain ⟨rfl, rfl⟩ := Prod.mk.inj heq
    refine ⟨⟨fun n k entry v hentry hvalue => ?_, h.replicaWrites, h.rebalances⟩, trivial⟩
    rcases NodeTransport.lookup_of_put hp hentry with hold | ⟨-, rfl, hnew⟩
    · exact h.transport n k entry v hold hvalue
    · obtain rfl := (CacheStore.value_of_putEntry hnew).symm.trans hvalue
      exact hput key v ttlSeconds rfl
  | get routing target key =>
    obtain ⟨⟨⟨isFound, value⟩, t'⟩, hp, heq⟩ := Option.map_eq_some_iff.mp hperform
    obtain ⟨rfl, rfl⟩ := Prod.mk.inj heq
    refine ⟨hkeep fun n k entry => NodeTransport.lookup_of_get hp, ?_⟩
    cases isFound with
    | false => trivial
    | true =>
      obtain ⟨entry, v, hentry, -, hvalue, rfl⟩ := NodeTransport.found_of_get hp
      exact ⟨key, v, rfl, rfl, h.transport _ _ _ _ hentry hvalue⟩
  | getReplica replica key =>
    obtain ⟨⟨⟨isFound, value⟩, t'⟩, hp, heq⟩ := Option.map_eq_some_iff.mp hperform
    obtain ⟨rfl, rfl⟩ := Prod.mk.inj heq
    refine ⟨hkeep fun n k entry => NodeTransport.lookup_of_get hp, ?_⟩
    cases isFound with
    | false => trivial
    | true =>
      obtain ⟨entry, v, hentry, -, hvalue, rfl⟩ := NodeTransport.found_of_get hp
      exact ⟨key, v, rfl, rfl, h.transport _ _ _ _ hentry hvalue⟩
  | delete routing target key =>
    obtain ⟨p, hp, heq⟩ := Option.map_eq_some_iff.mp hperform
    obtain ⟨rfl, rfl⟩ := Prod.mk.inj heq
    exact ⟨hkeep fun n k entry => NodeTransport.lookup_of_delete hp, trivial⟩
  | deleteReplica target replica key =>
    obtain ⟨p, hp, heq⟩ := Option.map_eq_some_iff.mp hperform
    obtain ⟨rfl, rfl⟩ := Prod.mk.inj heq
    exact ⟨hkeep fun n k entry => NodeTransport.lookup_of_delete hp, trivial⟩
  | heartbeat nodeId node =>
    obtain ⟨t', hp, heq⟩ := Option.map_eq_some_iff.mp hperform
    obtain ⟨rfl, rfl⟩ := Prod.mk.inj heq
    exact ⟨hkeep fun n k entry => NodeTransport.lookup_of_heartbeat hp, trivial⟩

/-- The part of a call that ran leaves it waiting, or answers values that meet `P`. -/
def CallProgress.Sourced (P : String → V → Prop) (call : Call V) : CallProgress V → Prop
  | .await waiting => waiting.call = call
  | .finish response => ∀ r value, response = some r → r.value = some value →
      ∃ key v, call = .get key ∧ value = some v ∧ P key v

private theorem sourced_finish {P : String → V → Prop} {call : Call V} {r : Response V}
    (h : r.value = none) : (CallProgress.finish (some r)).Sourced P call := by
  rintro r' value heq hvalue
  rw [← Option.some.inj heq, h] at hvalue
  cases hvalue

/-- What a call answers when it goes on came in. -/
private theorem sourced_resume {P : String → V → Prop} {c : DistributedCacheCluster V}
    {clock : Clock} {await : Await V} {reply : NodeReply V}
    {p : CallProgress V × DistributedCacheCluster V} (h : c.Sourced P)
    (hput : ∀ key v ttlSeconds, await.call = .put key (some v) ttlSeconds → P key v)
    (hreply : (CallState.replied await reply).Sourced P)
    (hresume : c.resume clock await reply = some p) :
    p.2.Sourced P ∧ p.1.Sourced P await.call := by
  have hmanager : ∀ manager, { c with manager := manager }.Sourced P := fun manager =>
    ⟨h.transport, h.replicaWrites, h.rebalances⟩
  unfold resume at hresume
  split at hresume
  · rename_i routing target key value ttlSeconds result
    split_ifs at hresume
    · obtain rfl := Option.some.inj hresume
      refine ⟨⟨h.transport, fun w hw v hv => ?_, h.rebalances⟩, sourced_finish rfl⟩
      rcases List.mem_append.mp hw with hw | hw
      · exact h.replicaWrites w hw v hv
      · unfold replicaWriteOf at hw
        split at hw
        · cases hw
        · obtain rfl := List.mem_singleton.mp hw
          obtain rfl : value = some v := hv
          exact hput key v ttlSeconds rfl
    · obtain rfl := Option.some.inj hresume
      exact ⟨h, sourced_finish rfl⟩
  · rename_i routing target key isFound value
    split_ifs at hresume with hfound
    · obtain rfl := Option.some.inj hresume
      refine ⟨hmanager _, fun r value' heq hvalue => ?_⟩
      subst hfound
      rw [← Option.some.inj heq] at hvalue
      rw [← Option.some.inj hvalue]
      exact hreply
    · split at hresume
      · obtain rfl := Option.some.inj hresume
        exact ⟨h, sourced_finish rfl⟩
      · obtain rfl := Option.some.inj hresume
        exact ⟨h, rfl⟩
  · rename_i replica key isFound value
    obtain rfl := Option.some.inj hresume
    cases isFound with
    | false => exact ⟨h, sourced_finish rfl⟩
    | true =>
      refine ⟨h, fun r value' heq hvalue => ?_⟩
      rw [← Option.some.inj heq] at hvalue
      rw [← Option.some.inj hvalue]
      exact hreply
  · split_ifs at hresume
    · split at hresume
      · obtain rfl := Option.some.inj hresume
        exact ⟨h, sourced_finish rfl⟩
      · obtain rfl := Option.some.inj hresume
        exact ⟨h, rfl⟩
    · obtain rfl := Option.some.inj hresume
      exact ⟨h, sourced_finish rfl⟩
  · obtain rfl := Option.some.inj hresume
    exact ⟨h, sourced_finish rfl⟩
  · obtain rfl := Option.some.inj hresume
    exact ⟨hmanager _, sourced_finish rfl⟩
  · cases hresume

private theorem sourced_routed {P : String → V → Prop} {c : DistributedCacheCluster V}
    {clock : Clock} {key : String} {await : RoutingDecision → NodeConfig → Await V} {call : Call V}
    (h : ∀ routing target, (await routing target).call = call) :
    (c.routed hashToInt clock key await).Sourced P call := by
  rw [DistributedCacheCluster.routed]
  cases (c.manager.routeForKey hashToInt clock key).servedBy with
  | none => exact sourced_finish rfl
  | some target => exact h _ target

/-- A call that arrives brings in values by a topology change only. -/
private theorem sourced_begin (hashToInt : String → ℕ) {P : String → V → Prop}
    {c : DistributedCacheCluster V} (clock : Clock) (call : Call V) (h : c.Sourced P)
    (hjoins : ∀ node rt, call = .addNode node (some rt) → ∀ key entry v,
      rt.store.entries.get? key = some entry → entry.value = some v → P key v) :
    (c.begin hashToInt clock call).2.Sourced P ∧
      (c.begin hashToInt clock call).1.Sourced P call := by
  cases call with
  | put key value ttlSeconds =>
    simp only [begin]
    exact ⟨h, sourced_routed fun _ _ => rfl⟩
  | get key =>
    simp only [begin]
    exact ⟨h, sourced_routed fun _ _ => rfl⟩
  | delete key =>
    simp only [begin]
    exact ⟨h, sourced_routed fun _ _ => rfl⟩
  | heartbeat nodeId =>
    rw [begin]
    cases c.manager.getNode nodeId with
    | none => exact ⟨h, sourced_finish rfl⟩
    | some node => exact ⟨h, rfl⟩
  | addNode node runtime =>
    refine ⟨h.addNode clock node runtime fun rt hrt => hjoins node rt (by rw [hrt]), ?_⟩
    rw [begin, DistributedCacheCluster.addNode]
    split_ifs <;> exact sourced_finish rfl
  | removeNode nodeId =>
    refine ⟨h.removeNode nodeId, ?_⟩
    rw [begin, DistributedCacheCluster.removeNode]
    split_ifs <;> exact sourced_finish rfl

/-! ### The runs -/

namespace Recorded

variable {t : NodeTransport V} {x : Trace V} {id : ℕ} {c : DistributedCacheCluster V}

/-- A call runs on: it waits again, or ends. -/
theorem proceed (h : Recorded t x) {call : Call V} (hinvoked : .invoke id call ∈ x.history)
    (hcluster : c.Sourced (CameIn t x.history)) {progress : CallProgress V}
    (hprogress : progress.Sourced (CameIn t x.history) call) :
    Recorded t ⟨(x.gateway.proceed id (progress, c)).1,
      x.history ++ (x.gateway.proceed id (progress, c)).2⟩ := by
  cases progress with
  | await await =>
    simp only [Gateway.proceed, List.append_nil]
    refine ⟨hcluster, fun other state hstate => ?_, fun other state hstate => ?_, h.answered⟩
    · rcases Gateway.of_update hstate with ⟨rfl, hnew⟩ | hold
      · obtain rfl := Option.some.inj hnew
        exact hprogress.symm ▸ hinvoked
      · exact h.invoked other state hold
    · rcases Gateway.of_update hstate with ⟨rfl, hnew⟩ | hold
      · obtain rfl := Option.some.inj hnew
        trivial
      · exact h.waits other state hold
  | finish response =>
    have hsub : x.history ⊆ x.history ++ response.toList.map (.respond id) :=
      List.subset_append_left _ _
    have hle : ∀ key v, CameIn t x.history key v → CameIn t _ key v := fun key v hin =>
      hin.mono hsub
    have hstill : ∀ other state, Function.update x.gateway.calls id none other = some state →
        x.gateway.calls other = some state := fun other state hstate => by
      rcases Gateway.of_update hstate with ⟨-, hnew⟩ | hold
      · cases hnew
      · exact hold
    refine ⟨hcluster.mono hle,
      fun other state hstate => hsub (h.invoked other state (hstill other state hstate)),
      fun other state hstate => (h.waits other state (hstill other state hstate)).mono hle, ?_⟩
    cases response with
    | none => simpa [Gateway.proceed] using h.answered
    | some r =>
      intro h₁ h₂ id' r' value hsplit hvalue
      change x.history ++ [.respond id r] = _ at hsplit
      rcases List.eq_nil_or_concat h₂ with rfl | ⟨h₂, last, rfl⟩
      · obtain ⟨rfl, hlast⟩ := List.append_inj' hsplit rfl
        obtain ⟨rfl, rfl⟩ := CallEvent.respond.inj (List.singleton_inj.mp hlast)
        obtain ⟨key, v, rfl, rfl, hin⟩ := hprogress r value rfl hvalue
        exact ⟨key, v, rfl, hinvoked, hin⟩
      · rw [List.concat_eq_append, ← List.cons_append, ← List.append_assoc] at hsplit
        obtain ⟨hsplit, -⟩ := List.append_inj' hsplit rfl
        exact h.answered h₁ h₂ id' r' value hsplit hvalue

/-- A call arrives. -/
theorem invoke (h : Recorded t x) (call : Call V) :
    Recorded t ⟨{ x.gateway with arrived := x.gateway.arrived + 1 },
      x.history ++ [.invoke x.gateway.arrived call]⟩ := by
  have hsub : x.history ⊆ x.history ++ [.invoke x.gateway.arrived call] :=
    List.subset_append_left _ _
  have hle : ∀ key v, CameIn t x.history key v → CameIn t _ key v := fun key v hin => hin.mono hsub
  refine ⟨h.cluster.mono hle, fun id state hstate => hsub (h.invoked id state hstate),
    fun id state hstate => (h.waits id state hstate).mono hle, fun h₁ h₂ id r value hsplit => ?_⟩
  change x.history ++ [_] = _ at hsplit
  rcases List.eq_nil_or_concat h₂ with rfl | ⟨h₂, last, rfl⟩
  · obtain ⟨-, hlast⟩ := List.append_inj' hsplit rfl
    cases List.singleton_inj.mp hlast
  · rw [List.concat_eq_append, ← List.cons_append, ← List.append_assoc] at hsplit
    obtain ⟨hsplit, -⟩ := List.append_inj' hsplit rfl
    exact h.answered h₁ h₂ id r value hsplit

/-- **All values that are around came in**, after every event at the gateway. -/
theorem step (h : Recorded t x) {e : GatewayEvent V} {x' : Trace V}
    (hstep : Trace.Step hashToInt x e x') : Recorded t x' := by
  obtain ⟨g', history'⟩ := x'
  obtain ⟨answers, hstep, rfl⟩ := hstep
  cases e with
  | arrive clock call =>
    obtain ⟨rfl, rfl⟩ := Prod.mk.inj (Option.some.inj hstep)
    have hinvoke := h.invoke call
    have hinvoked : .invoke x.gateway.arrived call ∈
        x.history ++ [.invoke x.gateway.arrived call] :=
      List.mem_append_right _ (List.mem_singleton_self _)
    obtain ⟨hcluster, hprogress⟩ := sourced_begin hashToInt clock call hinvoke.cluster (by
      rintro node rt rfl key entry v hentry hvalue
      exact .joined hinvoked hentry hvalue)
    rw [List.append_cons]
    exact hinvoke.proceed hinvoked hcluster hprogress
  | perform id clock =>
    rw [Gateway.step] at hstep
    split at hstep
    · rename_i await hstate
      obtain ⟨⟨reply, transport⟩, hperform, heq⟩ := Option.map_eq_some_iff.mp hstep
      obtain ⟨rfl, rfl⟩ := Prod.mk.inj heq
      obtain ⟨hcluster, hreply⟩ := sourced_perform h.cluster
        (fun key v ttlSeconds hcall => .put (hcall ▸ h.invoked id _ hstate)) hperform
      rw [List.append_nil]
      refine ⟨hcluster, fun other state hother => ?_, fun other state hother => ?_, h.answered⟩
      · rcases Gateway.of_update hother with ⟨rfl, hnew⟩ | hold
        · obtain rfl := Option.some.inj hnew
          have hinvoked := h.invoked other _ hstate
          exact hinvoked
        · exact h.invoked other state hold
      · rcases Gateway.of_update hother with ⟨rfl, hnew⟩ | hold
        · obtain rfl := Option.some.inj hnew
          exact hreply
        · exact h.waits other state hold
    · cases hstep
  | resume id clock =>
    rw [Gateway.step] at hstep
    split at hstep
    · rename_i await reply hstate
      obtain ⟨p, hresume, heq⟩ := Option.map_eq_some_iff.mp hstep
      obtain ⟨rfl, rfl⟩ := Prod.mk.inj heq.symm
      obtain ⟨hcluster, hprogress⟩ := sourced_resume h.cluster
        (fun key v ttlSeconds hcall => .put (hcall ▸ h.invoked id _ hstate)) (h.waits id _ hstate)
        hresume
      exact h.proceed (h.invoked id _ hstate) hcluster hprogress
    · cases hstep
  | raise id =>
    obtain ⟨state, hstate, heq⟩ := Option.map_eq_some_iff.mp hstep
    obtain ⟨rfl, rfl⟩ := Prod.mk.inj heq
    have hraised : (CallProgress.finish none).Sourced (CameIn t x.history) state.await.call := by
      intro r value hr
      cases hr
    exact h.proceed (h.invoked id state hstate) h.cluster hraised
  | background s =>
    obtain ⟨c, hs, heq⟩ := Option.map_eq_some_iff.mp hstep
    obtain ⟨rfl, rfl⟩ := Prod.mk.inj heq
    rw [List.append_nil]
    exact { h with cluster := h.cluster.runBackground hs }

end Recorded

/-- **No value is made up**: in every run of a gateway, with overlapping calls, changes of the
membership, lifetimes, evictions and failures, each value that a call answered is one that came in
under the key that the call gets, and this before the answer. -/
theorem answered_values_came_in {manager : ClusterManager} {t : NodeTransport V}
    {es : List (GatewayEvent V)} {x : Trace V}
    (hrun : Run (Trace.Step hashToInt) ⟨.init (.init manager t), []⟩ es x)
    {h₁ h₂ : CallHistory V} {id : ℕ} {r : Response V} {value : Option V}
    (hanswer : x.history = h₁ ++ .respond id r :: h₂) (hvalue : r.value = some value) :
    ∃ key v, value = some v ∧ .invoke id (.get key) ∈ h₁ ∧ CameIn t h₁ key v := by
  have hstart : Recorded t ⟨.init (.init manager t), []⟩ := by
    refine ⟨⟨fun nodeId key entry v hentry hv => .stored hentry hv, fun w hw => ?_,
      fun task htask => ?_⟩, fun id state hstate => ?_, fun id state hstate => ?_,
      fun h₁ h₂ id r value hsplit => ?_⟩
    · cases hw
    · cases htask
    · cases hstate
    · cases hstate
    · exact absurd hsplit (by simp)
  exact (hrun.invariant (fun _ _ _ h hstep => h.step hstep) hstart).answered h₁ h₂ id r value
    hanswer hvalue

theorem answered_values_came_in_sample : ∃ (x : Trace ℕ) (h₁ h₂ : CallHistory ℕ),
    x.history = h₁ ++ .respond 1 (found (some 7) (sampleNode "n")) :: h₂ ∧
      ∃ key v, some 7 = some v ∧ .invoke 1 (.get key) ∈ h₁ ∧
        CameIn (sampleCluster ["m", "n"]).transport h₁ key v := by
  obtain ⟨x, hrun, hanswers⟩ := Trace.exists_run_where sampleHash (fun _ _ => True)
    ⟨.init (sampleCluster ["m", "n"]), []⟩ sampleOverlap
    (fun x => (1, found (some 7) (sampleNode "n")) ∈ x.answers) (by decide +kernel)
  obtain ⟨h₁, h₂, hsplit⟩ :=
    List.append_of_mem (Trace.respond_mem_of_mem_answers (of_decide_eq_true hanswers))
  exact ⟨x, h₁, h₂, hsplit,
    answered_values_came_in (hrun.mono fun _ _ _ hstep => hstep.2) hsplit rfl⟩

end DistributedCache
