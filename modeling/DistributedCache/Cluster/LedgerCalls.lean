import DistributedCache.Cluster.Ledger

/-!
# Calls next to the maps of writes

A call arrives, its node carries the request out, and it goes on after the reply. In each of these
the calls that wait stay accounted for, and the owners of the key keep what was carried out last,
or it becomes due: the first owner when it carries a write out, the second one when the call goes
on.

## Main results

* `Ledger.Accounted.perform` : a node carries the request of a waiting call out.
* `Ledger.Accounted.resume` : a waiting call goes on.
* `Ledger.Accounted.arrive` : a call arrives.
-/

namespace DistributedCache

open Library DistributedCacheCluster

variable {V : Type*} {hashToInt : String → ℕ} {key : String}

namespace Ledger

variable {x x' : Ledger V}

/-! ### A node carries a request out -/

theorem step_perform {id : ℕ} {clock : Clock} (h : x.step hashToInt (.perform id clock) = some x') :
    ∃ await reply transport, x.gateway.calls id = some (.asking await) ∧
      x.gateway.cluster.transport.perform clock await = some (reply, transport) ∧
      x' = ⟨{ x.gateway with
          cluster := { x.gateway.cluster with transport := transport }
          calls := Function.update x.gateway.calls id (some (.replied await reply)) },
        carryOut (some (.replied await reply)) x.carriedOut, x.acknowledged⟩ := by
  obtain ⟨p, hp, rfl⟩ := Option.map_eq_some_iff.mp h
  rw [Gateway.step] at hp
  split at hp
  · rename_i await hstate
    obtain ⟨⟨reply, transport⟩, hperform, rfl⟩ := Option.map_eq_some_iff.mp hp
    refine ⟨await, reply, transport, hstate, hperform, ?_⟩
    simp only [Function.update_self]
  · cases hp

section Perform

variable {id : ℕ} {clock : Clock} {await : Await V} {reply : NodeReply V}
  {transport : NodeTransport V} {m : KeyValueMap V}

/-- The gateway after a node has carried a request out, with the map `m` of what was. -/
private def performed (x : Ledger V) (id : ℕ) (await : Await V) (reply : NodeReply V)
    (transport : NodeTransport V) (m : KeyValueMap V) : Ledger V :=
  ⟨{ x.gateway with
      cluster := { x.gateway.cluster with transport := transport }
      calls := Function.update x.gateway.calls id (some (.replied await reply)) },
    m, x.acknowledged⟩

private theorem moves_performed (h : x.Accounted hashToInt key)
    (hstate : x.gateway.calls id = some (.asking await))
    (hm : await.call.writtenKey? = some key ∨ m key = x.carriedOut key) :
    Moves key x id (some (.replied await reply)) (x.performed id await reply transport m) where
  ring := rfl
  rebalances := rfl
  calls := rfl
  arrived := le_rfl
  lt := h.arrived id _ hstate
  same := hm.imp (fun hkey => ⟨_, hstate, hkey⟩) fun hm => ⟨hm, rfl⟩
  turn state hnew hkey := by
    obtain rfl := Option.some.inj hnew
    exact Or.inl ⟨_, hstate, hkey⟩

private theorem Accounted.performed (h : x.Accounted hashToInt key)
    (hstate : x.gateway.calls id = some (.asking await))
    (hsame : x.gateway.cluster.transport.SameNodes transport) (hnoTtl : transport.NoTtl)
    (hm : await.call.writtenKey? = some key ∨ m key = x.carriedOut key)
    (hstands : Stands hashToInt x.gateway.cluster.manager.ring key (m key) (x.acknowledged key)
      (.replied await reply)) :
    (x.performed id await reply transport m).Accounted hashToInt key := by
  refine h.moves (moves_performed h hstate hm)
    (h.healthy.mono (Or.inl rfl) hsame hnoTtl rfl fun w hw => Or.inl hw) (fun state hnew => ?_) ?_
  · obtain rfl := Option.some.inj hnew
    exact hstands
  · rintro hnew ⟨state, hold, hkey⟩
    obtain rfl := Option.some.inj (hstate.symm.trans hold)
    exact absurd hkey (hnew (.replied await reply) rfl)

/-- A request that has no effect for the key. -/
private theorem Accounted.effect_performed (h : x.Accounted hashToInt key)
    (hstate : x.gateway.calls id = some (.asking await)) (hm : m key = x.carriedOut key)
    (hlookup : ∀ n, transport.lookup n key = x.gateway.cluster.transport.lookup n key)
    (hold : ∀ n v, CallState.toCome? (.asking await) ≠ some (n, key, v))
    (hnew : ∀ n v, CallState.toCome? (.replied await reply) ≠ some (n, key, v)) :
    Effect hashToInt key x (x.performed id await reply transport m) := by
  refine (moves_performed h hstate (Or.inr hm)).effect (Or.inl rfl) hm hlookup
    (List.append_nil _).symm (fun w hw => by cases hw) (fun n v hsome => ?_) fun n hsome => ?_
  · exact absurd hsome (hnew n v)
  · rw [hstate] at hsome
    exact absurd hsome (hold n _)

/-- The first owner of the key carries a write of it out. -/
private theorem Accounted.current_performed (h : x.Accounted hashToInt key)
    (hstate : x.gateway.calls id = some (.asking await)) {routing : RoutingDecision}
    {target : NodeConfig} (howners : x.gateway.cluster.manager.ring.owners hashToInt key =
      target :: routing.replica.toList) {value : Option V} (hm : m key = value)
    (hwrites : x.gateway.cluster.transport.Writes target.nodeId key (value.map .plain) transport)
    (hcome : CallState.toCome? (.replied await reply) =
      routing.replica.map fun replica => (replica.nodeId, key, value)) :
    (x.performed id await reply transport m).Current hashToInt key := by
  constructor
  · intro node hnode
    dsimp only [Ledger.performed] at hnode ⊢
    rw [howners] at hnode
    obtain rfl := Option.some.inj hnode
    rw [hwrites.lookup, if_pos ⟨rfl, rfl⟩, hm]
  · intro node hnode
    dsimp only [Ledger.performed] at hnode
    rw [howners, List.tail_cons, Option.mem_toList] at hnode
    refine Or.inr (Or.inr ⟨id, h.arrived id _ hstate, ?_⟩)
    dsimp only [Ledger.performed]
    rw [Function.update_self, Option.bind_some, hcome, hnode, hm]
    rfl

private theorem lookup_of_writes {t t' : NodeTransport V} {nodeId k : String}
    {entry : Option (CacheEntry V)} (h : t.Writes nodeId k entry t') (hk : k ≠ key) (n : String) :
    t'.lookup n key = t.lookup n key := by
  rw [h.lookup, if_neg fun hc => hk hc.2.symm]

/-- A node carries the request of a waiting call out. -/
theorem Accounted.perform (h : x.Accounted hashToInt key)
    (hroom : ∀ cell ∈ x.gateway.putCell hashToInt (.perform id clock),
      x.gateway.cluster.transport.HasRoom cell.1 cell.2)
    (hstep : x.step hashToInt (.perform id clock) = some x') :
    x'.Accounted hashToInt key ∧ Effect hashToInt key x x' := by
  obtain ⟨await, reply, transport, hstate, hperform, rfl⟩ := step_perform hstep
  have httl := h.healthy.noTtl.transport
  cases h.stands id _ hstate with
  | @put routing target k v howners hsame =>
    have hroom' : x.gateway.cluster.transport.HasRoom target.nodeId k :=
      hroom (target.nodeId, k) (by rw [Gateway.putCell, hstate]; rfl)
    obtain ⟨result, rfl, hok, hwrites⟩ := NodeTransport.perform_put hroom' hperform
    have hmap : carryOut (some (.replied (.put routing target k (some v) none) (.written result)))
        x.carriedOut = Function.update x.carriedOut k (some v) := by
      simp only [carryOut, Option.bind_some, CallState.carriedOut?, hok, if_true]
      rfl
    have hnoTtl := httl.writes hwrites fun e he => by rw [← Option.some.inj he]
    rw [hmap]
    by_cases hk : k = key
    · subst hk
      have hvalue : Function.update x.carriedOut k (some v) k = some v := Function.update_self _ _ _
      exact ⟨h.performed hstate hwrites.toSameNodes hnoTtl (Or.inl rfl)
          (.stored howners hok fun _ => hvalue),
        .written rfl (h.current_performed hstate howners hvalue hwrites rfl)⟩
    · have hvalue : Function.update x.carriedOut k (some v) key = x.carriedOut key :=
        Function.update_of_ne (Ne.symm hk) _ _
      refine ⟨h.performed hstate hwrites.toSameNodes hnoTtl (Or.inr hvalue)
          (.stored howners hok fun hk' => absurd hk' hk),
        h.effect_performed hstate hvalue (lookup_of_writes hwrites hk)
          (fun n v' hsome => by cases hsome) fun n v' hsome => ?_⟩
      obtain ⟨replica, -, heq⟩ := Option.map_eq_some_iff.mp hsome
      exact hk (congrArg (fun p => p.2.1) heq)
  | get routing target k =>
    obtain ⟨rfl, hkeeps⟩ := NodeTransport.perform_get httl hperform
    exact ⟨h.performed hstate hkeeps.toSameNodes (httl.keeps hkeeps) (Or.inr rfl)
        (.read routing target k _),
      h.effect_performed hstate rfl (fun n => hkeeps.lookup n key)
        (fun n v hsome => by cases hsome) fun n v hsome => by cases hsome⟩
  | getReplica replica k =>
    obtain ⟨rfl, hkeeps⟩ := NodeTransport.perform_getReplica httl hperform
    exact ⟨h.performed hstate hkeeps.toSameNodes (httl.keeps hkeeps) (Or.inr rfl)
        (.readReplica replica k _),
      h.effect_performed hstate rfl (fun n => hkeeps.lookup n key)
        (fun n v hsome => by cases hsome) fun n v hsome => by cases hsome⟩
  | @delete routing target k howners hsame =>
    obtain ⟨result, rfl, hok, -, hwrites⟩ := NodeTransport.perform_delete hperform
    have hnoTtl := httl.writes hwrites fun e he => by cases he
    cases hfound : result.ok with
    | true =>
      have hmap : carryOut (some (.replied (.delete routing target k) (.written result)))
          x.carriedOut = Function.update x.carriedOut k none := by
        simp only [carryOut, Option.bind_some, CallState.carriedOut?, hfound, if_true]
        rfl
      rw [hmap]
      by_cases hk : k = key
      · subst hk
        have hvalue : Function.update x.carriedOut k none k = none := Function.update_self _ _ _
        refine ⟨h.performed hstate hwrites.toSameNodes hnoTtl (Or.inl rfl)
            (.erased howners (fun _ _ => hvalue) fun _ hrefused => ?_),
          .written rfl (h.current_performed hstate howners hvalue hwrites ?_)⟩
        · rw [hfound] at hrefused
          cases hrefused
        · rw [CallState.toCome?, if_pos hfound]
      · have hvalue : Function.update x.carriedOut k none key = x.carriedOut key :=
          Function.update_of_ne (Ne.symm hk) _ _
        refine ⟨h.performed hstate hwrites.toSameNodes hnoTtl (Or.inr hvalue)
            (.erased howners (fun hk' => absurd hk' hk) fun hk' => absurd hk' hk),
          h.effect_performed hstate hvalue (lookup_of_writes hwrites hk)
            (fun n v' hsome => by cases hsome) fun n v' hsome => ?_⟩
        rw [CallState.toCome?, if_pos hfound] at hsome
        obtain ⟨replica, -, heq⟩ := Option.map_eq_some_iff.mp hsome
        exact hk (congrArg (fun p => p.2.1) heq)
    | false =>
      -- a delete that is refused found nothing to erase
      have hmap : carryOut (some (.replied (.delete routing target k) (.written result)))
          x.carriedOut = x.carriedOut := by
        simp only [carryOut, Option.bind_some, CallState.carriedOut?, hfound, Bool.false_eq_true,
          if_false]
      have hmissing : x.gateway.cluster.transport.lookup target.nodeId k = none := by
        rw [hfound] at hok
        exact Option.not_isSome_iff_eq_none.mp (by rw [← hok]; exact Bool.false_ne_true)
      rw [hmap]
      refine ⟨h.performed hstate hwrites.toSameNodes hnoTtl (Or.inr rfl)
          (.erased howners (fun _ hok' => ?_) fun hk _ => hsame hk),
        h.effect_performed hstate rfl (fun n => ?_) (fun n v' hsome => by cases hsome)
          fun n v' hsome => ?_⟩
      · rw [hfound] at hok'
        cases hok'
      · rw [hwrites.lookup]
        split_ifs with hcell
        · rw [hcell.1, hcell.2, hmissing]
        · rfl
      · rw [CallState.toCome?, hfound] at hsome
        cases hsome
  | @deleteReplica target replica k howners herased =>
    obtain ⟨result, rfl, hwrites⟩ := NodeTransport.perform_deleteReplica hperform
    have hnoTtl := httl.writes hwrites fun e he => by cases he
    refine ⟨h.performed hstate hwrites.toSameNodes hnoTtl (Or.inr rfl) (.erasedReplica herased), ?_⟩
    by_cases hk : k = key
    · subst hk
      have hcarried := herased rfl
      have hnone : (x.carriedOut k).map CacheEntry.plain = none := by rw [hcarried, Option.map_none]
      refine .erased rfl hcarried fun hcurrent =>
        ⟨fun node hnode => ?_, fun node hnode => Or.inl ?_⟩
      · refine (hwrites.lookup _ _).trans ?_
        split_ifs with hcell
        · exact hnone.symm
        · exact hcurrent.primary node hnode
      · dsimp only at hnode
        rw [howners] at hnode
        obtain rfl := List.mem_singleton.mp hnode
        exact (hwrites.lookup _ _).trans ((if_pos ⟨rfl, rfl⟩).trans hnone.symm)
    · refine h.effect_performed hstate rfl (lookup_of_writes hwrites hk) (fun n v' hsome => ?_)
        fun n v' hsome => by cases hsome
      exact hk (congrArg (fun p => p.2.1) (Option.some.inj hsome))
  | heartbeat nodeId node =>
    obtain ⟨rfl, hkeeps⟩ := NodeTransport.perform_heartbeat hperform
    exact ⟨h.performed hstate hkeeps.toSameNodes (httl.keeps hkeeps) (Or.inr rfl)
        (.noted nodeId node),
      h.effect_performed hstate rfl (fun n => hkeeps.lookup n key)
        (fun n v hsome => by cases hsome) fun n v hsome => by cases hsome⟩

end Perform

/-! ### A call goes on -/

theorem step_resume {id : ℕ} {clock : Clock} (h : x.step hashToInt (.resume id clock) = some x') :
    ∃ await reply p, x.gateway.calls id = some (.replied await reply) ∧
      x.gateway.cluster.resume clock await reply = some p ∧
      x' = ⟨(x.gateway.proceed id p).1, x.carriedOut, acknowledge (some (.replied await reply))
        (x.gateway.proceed id p).2 x.acknowledged⟩ := by
  obtain ⟨p, hp, rfl⟩ := Option.map_eq_some_iff.mp h
  rw [Gateway.step] at hp
  split at hp
  · rename_i await reply hstate
    obtain ⟨q, hresume, rfl⟩ := Option.map_eq_some_iff.mp hp
    refine ⟨await, reply, q, hstate, hresume, ?_⟩
    dsimp only
    rw [hstate]
  · cases hp

section Resume

variable {id : ℕ} {clock : Clock} {state : CallState V} {new : Option (CallState V)}
  {c : DistributedCacheCluster V} {m : KeyValueMap V}

/-- The gateway after a call went on, with the map `m` of what was acknowledged. -/
private def proceeded (x : Ledger V) (id : ℕ) (new : Option (CallState V))
    (c : DistributedCacheCluster V) (m : KeyValueMap V) : Ledger V :=
  ⟨{ x.gateway with cluster := c, calls := Function.update x.gateway.calls id new },
    x.carriedOut, m⟩

private theorem moves_proceeded (h : x.Accounted hashToInt key)
    (hstate : x.gateway.calls id = some state)
    (hmanager : HeartbeatOnly x.gateway.cluster.manager c.manager)
    (hrebalances : c.rebalances = x.gateway.cluster.rebalances)
    (hm : state.writtenKey? = some key ∨ m key = x.acknowledged key)
    (hnew : ∀ state' ∈ new, state'.writtenKey? = state.writtenKey?) :
    Moves key x id new (x.proceeded id new c m) where
  ring := hmanager.ring
  rebalances := hrebalances
  calls := rfl
  arrived := le_rfl
  lt := h.arrived id _ hstate
  same := hm.imp (fun hkey => ⟨_, hstate, hkey⟩) fun hm => ⟨rfl, hm⟩
  turn state' hstate' hkey := Or.inl ⟨_, hstate, (hnew state' hstate').symm.trans hkey⟩

/-- A call goes on to wait. -/
private theorem Accounted.waits (h : x.Accounted hashToInt key)
    (hstate : x.gateway.calls id = some state) {state' : CallState V}
    (hsame : state'.writtenKey? = state.writtenKey?)
    (hstands : Stands hashToInt x.gateway.cluster.manager.ring key (x.carriedOut key)
      (x.acknowledged key) state')
    (hcome : ∀ n v, state.toCome? = some (n, key, v) ↔ state'.toCome? = some (n, key, v)) :
    (x.proceeded id (some state') x.gateway.cluster x.acknowledged).Accounted hashToInt key ∧
      Effect hashToInt key x (x.proceeded id (some state') x.gateway.cluster x.acknowledged) := by
  have hmoves : Moves key x id (some state')
      (x.proceeded id (some state') x.gateway.cluster x.acknowledged) := by
    refine moves_proceeded h hstate (Or.inl rfl) rfl (Or.inr rfl) fun state hstate => ?_
    obtain rfl := Option.some.inj hstate
    exact hsame
  refine ⟨h.moves hmoves h.healthy (fun state hstate => ?_) ?_,
    hmoves.effect (Or.inl rfl) rfl (fun _ => rfl) (List.append_nil _).symm
      (fun w hw => by cases hw) (fun n v hsome => ?_) fun n hsome => ?_⟩
  · obtain rfl := Option.some.inj hstate
    exact hstands
  · rintro hnew ⟨old, hold, hkey⟩
    obtain rfl := Option.some.inj (hstate.symm.trans hold)
    exact absurd (hsame.trans hkey) (hnew state' rfl)
  · rw [hstate]
    exact (hcome n v).mpr hsome
  · rw [hstate] at hsome
    refine Or.inr ⟨id, h.arrived id _ hstate, ?_⟩
    dsimp only [Ledger.proceeded]
    rw [Function.update_self]
    exact (hcome n _).mp hsome

/-- A call is answered. -/
private theorem Accounted.ends (h : x.Accounted hashToInt key)
    (hstate : x.gateway.calls id = some state) (hhealthy : c.Healthy hashToInt)
    (hmanager : HeartbeatOnly x.gateway.cluster.manager c.manager)
    (hrebalances : c.rebalances = x.gateway.cluster.rebalances)
    (hlookup : ∀ n, c.transport.lookup n key = x.gateway.cluster.transport.lookup n key)
    {ws : List (ReplicaWrite V)} (hws : c.replicaWrites = x.gateway.cluster.replicaWrites ++ ws)
    (hbrings : ∀ w ∈ ws, w.key = key → state.toCome? = some (w.node.nodeId, key, w.value))
    (hsubmits : ∀ n, state.toCome? = some (n, key, x.carriedOut key) →
      ∃ w ∈ ws, w.key = key ∧ w.node.nodeId = n ∧ ∃ v ∈ x.carriedOut key, w.value = some v)
    (hm : state.writtenKey? = some key ∨ m key = x.acknowledged key)
    (hsettled : state.writtenKey? = some key → m key = x.carriedOut key) :
    (x.proceeded id none c m).Accounted hashToInt key ∧
      Effect hashToInt key x (x.proceeded id none c m) := by
  have hmoves : Moves key x id none (x.proceeded id none c m) :=
    moves_proceeded h hstate hmanager hrebalances hm fun state hstate => by cases hstate
  refine ⟨h.moves hmoves hhealthy (fun state hstate => by cases hstate) ?_,
    hmoves.effect hmanager rfl hlookup hws (fun w hw hkey => ?_)
      (fun n v hsome => by cases hsome) fun n hsome => ?_⟩
  · rintro - ⟨old, hold, hkey⟩
    obtain rfl := Option.some.inj (hstate.symm.trans hold)
    exact hsettled hkey
  · rw [hstate]
    exact hbrings w hw hkey
  · rw [hstate] at hsome
    obtain ⟨w, hw, hwrite⟩ := hsubmits n hsome
    refine Or.inl ⟨w, ?_, hwrite⟩
    dsimp only [Ledger.proceeded]
    rw [hws]
    exact List.mem_append_right _ hw

/-- The second owner, as long as it is alive. -/
private theorem otherOwner_eq_replica {ring : ConsistentHashRing} {k : String}
    {routing : RoutingDecision} {target : NodeConfig}
    (howners : ring.owners hashToInt k = target :: routing.replica.toList)
    {manager : ClusterManager} {now : Time}
    (halive : ∀ replica ∈ ring.owners hashToInt k, replica.nodeId ≠ target.nodeId →
      manager.isAlive now replica.nodeId = true) :
    otherOwner manager now routing target = routing.replica := by
  have hnodup := ConsistentHashRing.nodup_ownerIds hashToInt ring k
  rw [ConsistentHashRing.ownerIds, howners] at hnodup
  rw [howners] at halive
  rw [otherOwner]
  cases hreplica : routing.replica with
  | none => rfl
  | some replica =>
    rw [hreplica] at hnodup halive
    have hne : replica.nodeId ≠ target.nodeId := fun heq =>
      (List.pairwise_pair.mp hnodup) heq.symm
    rw [Option.filter_some, halive replica (by simp) hne]
    simp [hne]

/-- A waiting call goes on after the reply of the node. -/
theorem Accounted.resume (h : x.Accounted hashToInt key)
    (halive : x.gateway.cluster.AllAlive clock)
    (hstep : x.step hashToInt (.resume id clock) = some x') :
    x'.Accounted hashToInt key ∧ Effect hashToInt key x x' := by
  obtain ⟨await, reply, p, hstate, hresume, rfl⟩ := step_resume hstep
  have hheartbeat : ∀ nodeId, HeartbeatOnly x.gateway.cluster.manager
      (x.gateway.cluster.manager.recordHeartbeat (clock 0) nodeId) := fun nodeId =>
    Or.inr ⟨clock 0, nodeId, rfl⟩
  have hbeat : ∀ nodeId, Healthy hashToInt { x.gateway.cluster with
      manager := x.gateway.cluster.manager.recordHeartbeat (clock 0) nodeId } := fun nodeId =>
    h.healthy.mono (hheartbeat nodeId) (.refl _) h.healthy.noTtl.transport rfl fun w hw => Or.inl hw
  have hmembers : ∀ {k : String} {node : NodeConfig},
      node ∈ x.gateway.cluster.manager.ring.owners hashToInt k → ∀ i,
      x.gateway.cluster.manager.isAlive (clock i) node.nodeId = true := fun hnode i =>
    halive _ (h.healthy.mem_of_mem_owners hnode) i
  have hget : ∀ k r, (ClientOp.get k).observe (some r) x.acknowledged key = x.acknowledged key :=
    fun k r => congrFun (ClientOp.observe_get k _ _) key
  cases h.stands id _ hstate with
  | @stored routing target k v result howners hok hvalue =>
    simp only [DistributedCacheCluster.resume, hok, if_true] at hresume
    obtain rfl := Option.some.inj hresume
    have hother : otherOwner (x.gateway.cluster.manager.recordHeartbeat (clock 0) target.nodeId)
        (clock 1) routing target = routing.replica :=
      otherOwner_eq_replica howners fun replica hreplica hne => by
        rw [ClusterManager.isAlive_recordHeartbeat_of_ne hne, hmembers hreplica]
    have hws : replicaWriteOf (x.gateway.cluster.manager.recordHeartbeat (clock 0) target.nodeId)
        (clock 1) routing target k (some v) none =
          routing.replica.toList.map fun replica => ⟨replica, k, some v, none⟩ := by
      rw [replicaWriteOf, hother]
      cases routing.replica <;> rfl
    refine h.ends hstate (h.healthy.mono (hheartbeat target.nodeId) (.refl _)
        h.healthy.noTtl.transport rfl fun w hw => ?_) (hheartbeat target.nodeId) rfl (fun _ => rfl)
      (congrArg (x.gateway.cluster.replicaWrites ++ ·) hws) (fun w hw hkey => ?_)
      (fun n hsome => ?_) ?_ fun hkey => ?_
    · refine (List.mem_append.mp hw).imp_right fun hw => ?_
      rw [hws] at hw
      obtain ⟨replica, hreplica, rfl⟩ := List.mem_map.mp hw
      have howner : replica ∈ x.gateway.cluster.manager.ring.owners hashToInt k := by
        rw [howners]
        exact List.mem_cons_of_mem _ hreplica
      exact ⟨rfl, h.healthy.mem_of_mem_owners howner⟩
    · obtain ⟨replica, hreplica, rfl⟩ := List.mem_map.mp hw
      obtain rfl : k = key := hkey
      rw [CallState.toCome?, Option.mem_toList.mp hreplica]
      rfl
    · obtain ⟨replica, hreplica, heq⟩ := Option.map_eq_some_iff.mp hsome
      obtain ⟨rfl, hrest⟩ := Prod.mk.inj heq
      obtain ⟨rfl, hcarried⟩ := Prod.mk.inj hrest
      exact ⟨⟨replica, k, some v, none⟩,
        List.mem_map_of_mem (Option.mem_toList.mpr hreplica), rfl, rfl, v, hcarried.symm, rfl⟩
    · by_cases hk : k = key
      · exact Or.inl (congrArg some hk)
      · exact Or.inr (Function.update_of_ne (Ne.symm hk) _ _)
    · obtain rfl : k = key := Option.some.inj hkey
      exact (Function.update_self _ _ _).trans (hvalue rfl).symm
  | read routing target k reply =>
    cases reply with
    | written result => cases hresume
    | noted => cases hresume
    | read isFound value =>
      cases isFound with
      | true =>
        obtain rfl := Option.some.inj hresume
        exact h.ends hstate (hbeat target.nodeId) (hheartbeat target.nodeId) rfl (fun _ => rfl)
          (List.append_nil _).symm (fun w hw => by cases hw) (fun n hsome => by cases hsome)
          (Or.inr (hget k (found value target))) fun hkey => by cases hkey
      | false =>
        simp only [DistributedCacheCluster.resume, Bool.false_eq_true, if_false] at hresume
        cases hother : otherOwner x.gateway.cluster.manager (clock 1) routing target with
        | none =>
          rw [hother] at hresume
          obtain rfl := Option.some.inj hresume
          exact h.ends hstate h.healthy (Or.inl rfl) rfl (fun _ => rfl) (List.append_nil _).symm
            (fun w hw => by cases hw) (fun n hsome => by cases hsome) (Or.inr rfl)
            fun hkey => by cases hkey
        | some replica =>
          rw [hother] at hresume
          obtain rfl := Option.some.inj hresume
          exact h.waits hstate rfl (.getReplica replica k) fun n v =>
            ⟨fun hsome => (by cases hsome), fun hsome => (by cases hsome)⟩
  | readReplica replica k reply =>
    cases reply with
    | written result => cases hresume
    | noted => cases hresume
    | read isFound value =>
      obtain rfl := Option.some.inj hresume
      exact h.ends hstate h.healthy (Or.inl rfl) rfl (fun _ => rfl) (List.append_nil _).symm
        (fun w hw => by cases hw) (fun n hsome => by cases hsome)
        (Or.inr (hget k (if isFound then found value replica else notFound)))
        fun hkey => by cases hkey
  | @erased routing target k result howners herased hrefused =>
    cases hok : result.ok with
    | false =>
      simp only [DistributedCacheCluster.resume, hok, Bool.false_eq_true, if_false] at hresume
      obtain rfl := Option.some.inj hresume
      have hcome : CallState.toCome? (.replied (.delete routing target k) (.written result)) =
          (none : Option (String × String × Option V)) := by
        rw [CallState.toCome?, hok]
        rfl
      refine h.ends hstate h.healthy (Or.inl rfl) rfl (fun _ => rfl) (List.append_nil _).symm
        (fun w hw => by cases hw) (fun n hsome => ?_) (Or.inr rfl) fun hkey => ?_
      · rw [hcome] at hsome
        cases hsome
      · exact hrefused (Option.some.inj hkey) hok
    | true =>
      have hother : otherOwner x.gateway.cluster.manager (clock 0) routing target =
          routing.replica := otherOwner_eq_replica howners fun replica hreplica _ =>
        hmembers hreplica 0
      have hcome : CallState.toCome? (.replied (.delete routing target k) (.written result)) =
          routing.replica.map fun replica => (replica.nodeId, k, (none : Option V)) := by
        rw [CallState.toCome?, if_pos hok]
      simp only [DistributedCacheCluster.resume, hok, if_true, hother] at hresume
      cases hreplica : routing.replica with
      | none =>
        rw [hreplica] at hresume hcome
        obtain rfl := Option.some.inj hresume
        refine h.ends hstate h.healthy (Or.inl rfl) rfl (fun _ => rfl) (List.append_nil _).symm
          (fun w hw => by cases hw) (fun n hsome => ?_) ?_ fun hkey => ?_
        · rw [hcome] at hsome
          cases hsome
        · by_cases hk : k = key
          · exact Or.inl (congrArg some hk)
          · exact Or.inr (Function.update_of_ne (Ne.symm hk) _ _)
        · obtain rfl : k = key := Option.some.inj hkey
          exact (Function.update_self _ _ _).trans (herased rfl hok).symm
      | some replica =>
        rw [hreplica] at hresume hcome howners
        obtain rfl := Option.some.inj hresume
        exact h.waits hstate rfl (.deleteReplica howners fun hk => herased hk hok) fun n v => by
          rw [hcome]
          rfl
  | @erasedReplica target replica k result herased =>
    obtain rfl := Option.some.inj hresume
    refine h.ends hstate h.healthy (Or.inl rfl) rfl (fun _ => rfl) (List.append_nil _).symm
      (fun w hw => by cases hw) (fun n hsome => by cases hsome) ?_ fun hkey => ?_
    · by_cases hk : k = key
      · exact Or.inl (congrArg some hk)
      · exact Or.inr (Function.update_of_ne (Ne.symm hk) _ _)
    · obtain rfl : k = key := Option.some.inj hkey
      exact (Function.update_self _ _ _).trans (herased rfl).symm
  | noted nodeId node =>
    obtain rfl := Option.some.inj hresume
    exact h.ends hstate (hbeat nodeId) (hheartbeat nodeId) rfl (fun _ => rfl)
      (List.append_nil _).symm (fun w hw => by cases hw) (fun n hsome => by cases hsome)
      (Or.inr rfl) fun hkey => by cases hkey

end Resume

/-! ### A call arrives -/

/-- While all members are alive a call is routed to the first owner. -/
private theorem owners_of_servedBy {c : DistributedCacheCluster V} (h : c.Healthy hashToInt)
    {clock : Clock} (halive : c.AllAlive clock) {k : String} {target : NodeConfig}
    (hserved : (c.manager.routeForKey hashToInt clock k).servedBy = some target) :
    c.manager.ring.owners hashToInt k =
      target :: (c.manager.routeForKey hashToInt clock k).replica.toList := by
  have hhead : (c.manager.routeForKey hashToInt clock k).servedBy =
      (c.manager.liveOwners hashToInt (fun _ => true) k).head? :=
    ClusterManager.servedBy_routeForKey (h.steady halive k)
  rw [hhead, liveOwners_true] at hserved
  rw [ClusterManager.replica_routeForKey]
  rw [ConsistentHashRing.owners, ConsistentHashRing.ownerPair] at hserved ⊢
  cases hprimary : c.manager.ring.getNode hashToInt k with
  | none =>
    rw [hprimary] at hserved
    cases hserved
  | some p =>
    rw [hprimary] at hserved
    obtain rfl := Option.some.inj hserved
    rfl

section Arrive

variable {clock : Clock} {call : Call V}

/-- The gateway after a call has arrived, which waits as `new` or is answered. -/
private def arrivedAs (x : Ledger V) (new : Option (CallState V)) : Ledger V :=
  { x with gateway := { x.gateway with
      arrived := x.gateway.arrived + 1
      calls := Function.update x.gateway.calls x.gateway.arrived new } }

private theorem Accounted.arrivedAs (h : x.Accounted hashToInt key) (new : Option (CallState V))
    (hstands : ∀ state ∈ new, Stands hashToInt x.gateway.cluster.manager.ring key
      (x.carriedOut key) (x.acknowledged key) state)
    (hasking : ∀ state ∈ new, state.toCome? = none)
    (hturn : ∀ state ∈ new, state.writtenKey? = some key → ¬x.UnderWay key) :
    (x.arrivedAs new).Accounted hashToInt key ∧ Effect hashToInt key x (x.arrivedAs new) := by
  have hnone : x.gateway.calls x.gateway.arrived = none := by
    cases hold : x.gateway.calls x.gateway.arrived with
    | none => rfl
    | some state => exact absurd (h.arrived _ state hold) (lt_irrefl _)
  have hmoves : Moves key x x.gateway.arrived new (x.arrivedAs new) :=
    ⟨rfl, rfl, rfl, Nat.le_succ _, Nat.lt_succ_self _, Or.inr ⟨rfl, rfl⟩,
      fun state hstate hkey => Or.inr (hturn state hstate hkey)⟩
  refine ⟨h.moves hmoves h.healthy hstands ?_,
    hmoves.effect (Or.inl rfl) rfl (fun _ => rfl) (List.append_nil _).symm
      (fun w hw => by cases hw) (fun n v hsome => ?_) fun n hsome => ?_⟩
  · rintro - ⟨state, hold, -⟩
    rw [hnone] at hold
    cases hold
  · obtain ⟨state, hstate, hcome⟩ := Option.bind_eq_some_iff.mp hsome
    rw [hasking state hstate] at hcome
    cases hcome
  · rw [hnone] at hsome
    cases hsome

/-- A call about a key arrives. -/
private theorem Accounted.routed (h : x.Accounted hashToInt key)
    (halive : x.gateway.cluster.AllAlive clock) {k : String}
    {await : RoutingDecision → NodeConfig → Await V}
    (hstands : ∀ routing target,
      x.gateway.cluster.manager.ring.owners hashToInt k = target :: routing.replica.toList →
        Stands hashToInt x.gateway.cluster.manager.ring key (x.carriedOut key)
          (x.acknowledged key) (.asking (await routing target)))
    (hasking : ∀ routing target, CallState.toCome? (.asking (await routing target)) = none)
    (hturn : ∀ routing target, (await routing target).call.writtenKey? = some key →
      ¬x.UnderWay key) :
    let g := ({ x.gateway with arrived := x.gateway.arrived + 1 }.proceed x.gateway.arrived
      (x.gateway.cluster.routed hashToInt clock k await, x.gateway.cluster)).1
    Accounted hashToInt key { x with gateway := g } ∧
      Effect hashToInt key x { x with gateway := g } := by
  rw [DistributedCacheCluster.routed]
  cases hserved : (x.gateway.cluster.manager.routeForKey hashToInt clock k).servedBy with
  | none =>
    exact h.arrivedAs _ (fun state hstate => by cases hstate) (fun state hstate => by cases hstate)
      fun state hstate => by cases hstate
  | some target =>
    have howners := owners_of_servedBy h.healthy halive hserved
    refine h.arrivedAs _ (fun state hstate => ?_) (fun state hstate => ?_)
      fun state hstate hkey => ?_
    · obtain rfl := Option.some.inj hstate
      exact hstands _ target howners
    · obtain rfl := Option.some.inj hstate
      exact hasking _ target
    · obtain rfl := Option.some.inj hstate
      exact hturn _ target hkey

/-- A call arrives and runs up to where it first waits for a node. -/
theorem Accounted.arrive (h : x.Accounted hashToInt key)
    (halive : x.gateway.cluster.AllAlive clock) (hplain : call.Plain)
    (hturn : call.writtenKey? = some key → ¬x.UnderWay key)
    (hstep : x.step hashToInt (.arrive clock call) = some x') :
    x'.Accounted hashToInt key ∧ Effect hashToInt key x x' := by
  obtain ⟨p, hp, rfl⟩ := Option.map_eq_some_iff.mp hstep
  obtain rfl := Option.some.inj hp
  have hsettled : call.writtenKey? = some key → x.acknowledged key = x.carriedOut key :=
    fun hkey => h.settled (hturn hkey)
  cases call with
  | put k value ttlSeconds =>
    obtain ⟨hvalue, rfl⟩ := hplain
    obtain ⟨v, rfl⟩ := Option.isSome_iff_exists.mp hvalue
    exact h.routed halive (fun routing target howners =>
      .put howners fun hk => hsettled (congrArg some hk)) (fun _ _ => rfl) fun _ _ => hturn
  | get k =>
    exact h.routed halive (fun routing target _ => .get routing target k) (fun _ _ => rfl)
      fun _ _ hkey => by cases hkey
  | delete k =>
    exact h.routed halive (fun routing target howners =>
      .delete howners fun hk => hsettled (congrArg some hk)) (fun _ _ => rfl) fun _ _ => hturn
  | heartbeat nodeId =>
    dsimp only [begin]
    cases x.gateway.cluster.manager.getNode nodeId with
    | none =>
      exact h.arrivedAs _ (fun state hstate => by cases hstate)
        (fun state hstate => by cases hstate) fun state hstate => by cases hstate
    | some node =>
      refine h.arrivedAs (some (.asking (.heartbeat nodeId node))) (fun state hstate => ?_)
        (fun state hstate => ?_) fun state hstate hkey => ?_
      · obtain rfl := Option.some.inj hstate
        exact .heartbeat nodeId node
      · obtain rfl := Option.some.inj hstate
        rfl
      · obtain rfl := Option.some.inj hstate
        cases hkey
  | addNode node runtime => exact hplain.elim
  | removeNode nodeId => exact hplain.elim

end Arrive

end Ledger

end DistributedCache
