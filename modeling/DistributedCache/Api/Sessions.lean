import DistributedCache.Api.App
import DistributedCache.Cluster.History
import Mathlib.Data.Nat.Digits.Defs

/-!
# The API as a map

Clients send requests to the gateway one after another, and between them the gateway asks its
members for heartbeats. As long as all members are alive and the background work of a request has
ended before the next one comes, every request is answered as by a plain map: the puts, gets and
deletes that reach a handler, with the texts and codes of their errors, and also all others, which
leave the map as it is: health checks, heartbeats, payloads that the schema refuses, and requests
that no handler is asked for.

## Main definitions

* `GatewayApp.op?` : the call of a map that a request is.
* `ApiResponse.Tells`, `GatewayApp.ownAnswer` : the response to a request.
* `GatewayApp.SessionStep` : sessions of clients.
* `GatewayApp.Explained` : a session that is answered as by a map.

## Main results

* `GatewayApp.Session.step` : one event of a session.
* `GatewayApp.local_cluster_is_map` : clients see a map.
-/

namespace DistributedCache

open Library DistributedCacheCluster

variable {V : Type*} {hashToInt : String → ℕ}

/-! ### The responses of the cluster -/

/-- The responses that the cluster may make of a call of a client when its nodes are in the same
process. It names an owner of the key as the server. -/
inductive ClientOp.Answered (owners : List String) : ClientOp V → Response V → Prop
  | unavailable (op : ClientOp V) : Answered owners op noLiveNodes
  | stored (key : String) (value : V) {servedBy : String} (howner : servedBy ∈ owners) :
      Answered owners (.put key value)
        { ok := true, statusCode := 200, servedBy := some servedBy }
  | found (key : String) (value : Option V) {servedBy : String} (howner : servedBy ∈ owners) :
      Answered owners (.get key)
        { ok := true, statusCode := 200, value := some value, servedBy := some servedBy }
  | missing {op : ClientOp V} (hop : ∀ key value, op ≠ .put key value) :
      Answered owners op { ok := false, statusCode := 404, message := some "not found" }
  | deleted (key : String) {servedBy : String} (howner : servedBy ∈ owners) :
      Answered owners (.delete key)
        { ok := true, statusCode := 200, servedBy := some servedBy }

namespace DistributedCacheCluster

variable {c : DistributedCacheCluster V} {clock : Clock} {r : Response V}

private theorem answered_put (hkind : c.transport.kind = .inProcess) {key : String} {value : V}
    (h : (c.put hashToInt clock key (some value) none).1 = some r) :
    (ClientOp.put key value).Answered (c.manager.ring.ownerIds hashToInt key) r := by
  simp only [put] at h
  split at h
  · obtain rfl := Option.some.inj h
    exact .unavailable _
  · rename_i target htarget
    split at h
    · cases h
    · rename_i result transport hput
      obtain ⟨rt, -, hrt⟩ := Option.map_eq_some_iff.mp hput
      have hok : result.ok = true := by
        rw [← (Prod.mk.inj hrt).1, NodeTransport.refusal, hkind]
      rw [if_pos hok] at h
      obtain rfl := Option.some.inj h
      exact .stored key value (ConsistentHashRing.mem_ownerIds_of_mem hashToInt
        (ClusterManager.mem_owners_of_servedBy htarget))

private theorem answered_get {key : String}
    (h : (c.get hashToInt clock key).1 = some r) :
    (ClientOp.get key).Answered (c.manager.ring.ownerIds hashToInt key) r := by
  simp only [get] at h
  split at h
  · obtain rfl := Option.some.inj h
    exact .unavailable _
  · rename_i target htarget
    split at h
    · cases h
    · obtain rfl := Option.some.inj h
      exact .found key _ (ConsistentHashRing.mem_ownerIds_of_mem hashToInt
        (ClusterManager.mem_owners_of_servedBy htarget))
    · split at h
      · obtain rfl := Option.some.inj h
        exact .missing (by simp)
      · rename_i replica hother
        have hreplica := (Option.filter_eq_some_iff.mp hother).1
        rw [ClusterManager.replica_routeForKey] at hreplica
        split at h
        · cases h
        · obtain rfl := Option.some.inj h
          exact .found key _ (ConsistentHashRing.mem_ownerIds_of_mem hashToInt
            ((ConsistentHashRing.mem_owners hashToInt).mpr (Or.inr hreplica)))
        · obtain rfl := Option.some.inj h
          exact .missing (by simp)

private theorem answered_delete (hkind : c.transport.kind = .inProcess) {key : String}
    (h : (c.delete hashToInt clock key).1 = some r) :
    (ClientOp.delete key).Answered (V := V) (c.manager.ring.ownerIds hashToInt key) r := by
  simp only [delete] at h
  split at h
  · obtain rfl := Option.some.inj h
    exact .unavailable _
  · rename_i target htarget
    have howner := ConsistentHashRing.mem_ownerIds_of_mem hashToInt
      (ClusterManager.mem_owners_of_servedBy htarget)
    split at h
    · cases h
    · rename_i result transport hdelete
      obtain ⟨rt, -, hrt⟩ := Option.map_eq_some_iff.mp hdelete
      have hresult : result = (rt.deleteLocal (clock.after 3) key).1 := by
        rw [← (Prod.mk.inj hrt).1, NodeTransport.refusal, hkind]
        rfl
      split_ifs at h with hok
      · split at h
        · obtain rfl := Option.some.inj h
          exact .deleted key howner
        · split at h
          · cases h
          · obtain rfl := Option.some.inj h
            exact .deleted key howner
      · obtain rfl := Option.some.inj h
        have hrefused : result = ⟨false, 404, "not found"⟩ := by
          simp only [hresult, NodeRuntime.deleteLocal] at hok ⊢
          split_ifs at hok ⊢
          · simp at hok
          · rfl
        rw [hrefused]
        exact .missing (by simp)

/-- The responses to the calls of clients. -/
theorem answered_of_serve (hkind : c.transport.kind = .inProcess) {op : ClientOp V}
    (h : (c.serve hashToInt clock op.call).1 = some r) :
    op.Answered (c.manager.ring.ownerIds hashToInt op.key) r := by
  cases op with
  | put key value => exact answered_put hkind h
  | get key => exact answered_get h
  | delete key => exact answered_delete hkind h

end DistributedCacheCluster

/-! ### The responses of the API -/

/-- The response tells the client the answer of a map, and an owner of the key as the server. -/
def ApiResponse.Tells (response : ApiResponse V) (owners : List String) : Answer V → Prop
  | .stored | .deleted =>
    ∃ servedBy ∈ owners, response = ⟨200, .cache ⟨true, 200, none, none, some servedBy⟩⟩
  | .found value =>
    ∃ servedBy ∈ owners, response = ⟨200, .cache ⟨true, 200, none, some value, some servedBy⟩⟩
  | .missing => response = ⟨404, .detail "not found"⟩
  | .unavailable => response = ⟨503, .detail "cluster has no live nodes"⟩

theorem ClientOp.Answered.tells {owners : List String} {op : ClientOp V} {r : Response V}
    {m : KeyValueMap V} (h : op.Answered owners r) (his : r.Is (op.answer m)) :
    (respond (some r) fun r => .cache (.ofResult r)).Tells owners (op.answer m) := by
  cases h with
  | unavailable => exact absurd rfl (Response.statusCode_ne_of_is his)
  | stored key value howner => exact ⟨_, howner, rfl⟩
  | found key value howner =>
    rw [answer] at his ⊢
    cases hm : m key with
    | none => simp [hm, Response.Is] at his
    | some v =>
      rw [hm] at his
      obtain rfl := Option.some.inj his.2.2
      exact ⟨_, howner, rfl⟩
  | missing hop =>
    cases op with
    | put key value => exact absurd rfl (hop key value)
    | get key =>
      rw [answer] at his ⊢
      cases hm : m key with
      | none => rfl
      | some v => simp [hm, Response.Is] at his
    | delete key =>
      rw [answer] at his ⊢
      cases hm : m key with
      | none => rfl
      | some v => simp [hm, Response.Is] at his
  | deleted key howner =>
    rw [answer] at his ⊢
    cases hm : m key with
    | none => simp [hm, Response.Is] at his
    | some v => exact ⟨_, howner, rfl⟩

/-! ### Requests -/

namespace GatewayApp

variable (app : GatewayApp V)

/-- The payload of a put that the schema accepts. -/
def putRequest? (request : HttpRequest V) : Option (PutRequest V) :=
  request.body.bind PutBody.validate

/-- The call of a map that the request is, if it reaches the handler of one. -/
def op? (request : HttpRequest V) : Option (ClientOp V) :=
  match app.endpoint? request with
  | some (.putCache key) => (putRequest? request).bind fun put => put.value.map (.put key)
  | some (.getCache key) => some (.get key)
  | some (.deleteCache key) => some (.delete key)
  | _ => none

/-- The request puts a value other than `None` without a lifetime, if it is an accepted put. -/
def Plain (request : HttpRequest V) : Prop :=
  ∀ key, app.endpoint? request = some (.putCache key) →
    ∀ put ∈ putRequest? request, put.value.isSome ∧ put.ttlSeconds = none

/-- The response to a request that is no call of a map, while all members are alive. -/
def ownAnswer (members : List String) (request : HttpRequest V) : ApiResponse V :=
  match app.endpoint? request with
  | some .health => ⟨200, .health (members.map fun nodeId => (nodeId, true))⟩
  | some (.heartbeat nodeId) =>
    if nodeId ∈ members then ⟨200, .heartbeat ⟨true, 200, none⟩⟩
    else ⟨404, .detail "unknown node"⟩
  | some (.putCache _) =>
    if request.body.isSome then ⟨422, .validationErrors⟩ else app.framework request
  | _ => app.framework request

end GatewayApp

/-- A request with its response and the background steps up to the next event, or a heartbeat
that the gateway asks for. -/
inductive SessionEvent (V : Type*)
  | exchange (clock : Clock) (request : HttpRequest V) (response : ApiResponse V)
      (background : List BackgroundStep)
  | beat (clock : Clock) (nodeId : String)

namespace SessionEvent

/-- The map after the event. -/
def onMap (app : GatewayApp V) (m : KeyValueMap V) : SessionEvent V → KeyValueMap V
  | .exchange _ request _ _ => (app.op? request).elim m fun op => op.run m
  | .beat _ _ => m

/-- The response is that of a map, on the members of `manager`. -/
def AnsweredBy (hashToInt : String → ℕ) (app : GatewayApp V) (manager : ClusterManager)
    (m : KeyValueMap V) : SessionEvent V → Prop
  | .exchange _ request response _ =>
    match app.op? request with
    | some op => response.Tells (manager.ring.ownerIds hashToInt op.key) (op.answer m)
    | none => response = app.ownAnswer manager.nodes.keys request
  | .beat _ _ => True

end SessionEvent

namespace GatewayApp

/-- All responses are those of a map that begins as `m`. -/
def Explained (hashToInt : String → ℕ) (app : GatewayApp V) (manager : ClusterManager) :
    KeyValueMap V → List (SessionEvent V) → Prop
  | _, [] => True
  | m, e :: es => e.AnsweredBy hashToInt app manager m ∧
      Explained hashToInt app manager (e.onMap app m) es

/-- The steps of a session: a request about one of the keys while all members are alive, with the
background steps until nothing is left to do, or a heartbeat. -/
inductive SessionStep (hashToInt : String → ℕ) (app : GatewayApp V) (keys : Finset String) :
    DistributedCacheCluster V → SessionEvent V → DistributedCacheCluster V → Prop
  | exchange {c c₁ c' : DistributedCacheCluster V} {clock : Clock} {request : HttpRequest V}
      {response : ApiResponse V} {background : List BackgroundStep} (halive : c.AllAlive clock)
      (hplain : app.Plain request) (hkeys : ∀ op ∈ app.op? request, op.key ∈ keys)
      (hserve : app.serve hashToInt c clock request = (response, c₁))
      (hrun : Run (fun d s d' => s.Succeeds ∧ d.runBackground hashToInt s = some d') c₁ background
        c')
      (hquiescent : c'.Quiescent) :
      SessionStep hashToInt app keys c (.exchange clock request response background) c'
  | beat {c : DistributedCacheCluster V} (clock : Clock) (nodeId : String) :
      SessionStep hashToInt app keys c (.beat clock nodeId) (c.heartbeat clock nodeId).2

/-- The cluster is a map, with its nodes in the same process and the members of `manager`. -/
structure Session (hashToInt : String → ℕ) (ids : Set String) (keys : Finset String)
    (manager : ClusterManager) (c : DistributedCacheCluster V) (m : KeyValueMap V) : Prop where
  isMap : Observed.IsMap hashToInt ids keys ⟨c, m⟩
  kind : c.transport.kind = .inProcess
  nodes : c.manager.nodes = manager.nodes
  ring : c.manager.ring = manager.ring

namespace Session

variable {app : GatewayApp V} {ids : Set String} {keys : Finset String} {manager : ClusterManager}
  {c c' : DistributedCacheCluster V} {m : KeyValueMap V}

/-- What changes no entry leaves the cluster a map. -/
theorem of_keeps (h : Session hashToInt ids keys manager c m)
    (hmanager : HeartbeatOnly c.manager c'.manager) (hkeeps : c.transport.Keeps c'.transport)
    (hquiescent : c'.Quiescent) : Session hashToInt ids keys manager c' m := by
  have hrest : c'.AtRest hashToInt ids := by
    refine ⟨HeartbeatOnly.reachable hmanager h.isMap.rest.manager,
      h.isMap.rest.noTtl.keeps hkeeps, fun nodeId hn => ?_, hquiescent⟩
    rw [hmanager.nodes] at hn
    exact hkeeps.toSameNodes.answers_iff.mpr (h.isMap.rest.answers nodeId hn)
  have hmap : Observed.IsMap hashToInt ids keys ⟨c', m⟩ := by
    refine ⟨fun key => ⟨hrest, fun nodeId hn => ?_, fun hsome => ?_⟩, ?_, fun nodeId hn => ?_,
      h.isMap.keys⟩
    · dsimp only at hn ⊢
      rw [hmanager.nodes] at hn
      rw [hkeeps.lookup, hmanager.ring]
      exact (h.isMap.mirrors key).placed nodeId hn
    · rw [hmanager.ring]
      exact (h.isMap.mirrors key).owned hsome
    · rw [hmanager.ring]
      exact h.isMap.noCollision
    · dsimp only at hn ⊢
      rw [hmanager.nodes] at hn
      rw [hkeeps.toSameNodes.capacity]
      exact h.isMap.capacity nodeId hn
  exact ⟨hmap, hkeeps.toSameNodes.kind.trans h.kind, hmanager.nodes.trans h.nodes,
    hmanager.ring.trans h.ring⟩

/-- While nothing is submitted the background loop only runs cleanups. -/
theorem idle (h : Session hashToInt ids keys manager c m) {background : List BackgroundStep}
    (hrun : Run (fun d s d' => s.Succeeds ∧ d.runBackground hashToInt s = some d') c background
      c') : Session hashToInt ids keys manager c' m := by
  refine hrun.invariant (I := fun d => Session hashToInt ids keys manager d m)
    (fun d s d' hd hs => ?_) h
  have hquiescent := hd.isMap.rest.quiescent
  rcases runBackground_of_done hquiescent.rebalances hs.2 with
    ⟨index, clock, outcome, rfl⟩ | ⟨nodeId, now, rfl⟩
  · obtain ⟨w, hw, -⟩ := runBackground_replicate hs.2
    rw [hquiescent.replicaWrites] at hw
    simp at hw
  · obtain rfl := Option.some.inj hs.2
    exact hd.of_keeps (Or.inl rfl) (NodeTransport.keeps_cleanup hd.isMap.rest.noTtl now nodeId)
      ⟨hquiescent.replicaWrites, hquiescent.rebalances⟩

/-- A heartbeat leaves the cluster a map. -/
theorem beat (h : Session hashToInt ids keys manager c m) (clock : Clock) (nodeId : String) :
    Session hashToInt ids keys manager (c.heartbeat clock nodeId).2 m := by
  obtain ⟨hmanager, hkeeps, hwrites, hrebalances⟩ := serve_heartbeat hashToInt c clock nodeId
  refine h.of_keeps hmanager hkeeps ⟨hwrites.trans h.isMap.rest.quiescent.replicaWrites, ?_⟩
  change ∀ task ∈ (c.serve hashToInt clock (.heartbeat nodeId)).2.rebalances, task.Done
  rw [hrebalances]
  exact h.isMap.rest.quiescent.rebalances

theorem healthReport_eq (h : Session hashToInt ids keys manager c m) {clock : Clock}
    (halive : c.AllAlive clock) :
    c.manager.healthReport clock = manager.nodes.keys.map fun nodeId => (nodeId, true) := by
  rw [ClusterManager.healthReport, h.nodes]
  conv_rhs => rw [← List.zipIdx_map_fst 0 manager.nodes.keys, List.map_map]
  refine List.map_congr_left fun p hp => ?_
  have hmember : p.1 ∈ c.manager.nodes := by
    rw [h.nodes, OrderedDict.mem_def]
    exact List.fst_mem_of_mem_zipIdx hp
  rw [Function.comp_apply, halive p.1 hmember p.2]

/-- The response to a heartbeat. -/
theorem heartbeat_eq (h : Session hashToInt ids keys manager c m) (clock : Clock)
    (nodeId : String) : (GatewayApp.heartbeat c clock nodeId).1 =
      if nodeId ∈ manager.nodes.keys then ⟨200, .heartbeat ⟨true, 200, none⟩⟩
      else ⟨404, .detail "unknown node"⟩ := by
  have hmember : nodeId ∈ manager.nodes.keys ↔ ∃ node, c.manager.getNode nodeId = some node := by
    rw [← OrderedDict.mem_def, ← h.nodes]
    exact OrderedDict.mem_iff_exists_get?
  rw [GatewayApp.heartbeat, respondWith, DistributedCacheCluster.heartbeat]
  cases hnode : c.manager.getNode nodeId with
  | none =>
    rw [if_neg (by simp [hmember, hnode])]
    rfl
  | some node =>
    have hid := h.isMap.rest.manager.coherent.key_eq nodeId node hnode
    have hanswers : c.transport.Answers node.nodeId := h.isMap.rest.answers _ <| by
      rw [hid]
      exact OrderedDict.mem_iff_exists_get?.mpr ⟨node, hnode⟩
    obtain ⟨transport, hbeat, -⟩ := NodeTransport.heartbeat_eq hanswers (clock 0)
    rw [if_pos (hmember.mpr ⟨node, hnode⟩)]
    simp only [hbeat]
    rfl

/-- A request that is no call of a map is answered, and does at most what a heartbeat does. -/
theorem serve_of_op?_eq_none (h : Session hashToInt ids keys manager c m) {clock : Clock}
    {request : HttpRequest V} (halive : c.AllAlive clock) (hplain : app.Plain request)
    (hop : app.op? request = none) :
    (app.serve hashToInt c clock request).1 = app.ownAnswer manager.nodes.keys request ∧
      Session hashToInt ids keys manager (app.serve hashToInt c clock request).2 m := by
  rw [op?] at hop
  rw [serve, ownAnswer]
  split at hop
  · rename_i key hendpoint
    rw [hendpoint]
    cases hbody : request.body with
    | none => exact ⟨rfl, h⟩
    | some body =>
      have hput : putRequest? request = body.validate := by
        rw [putRequest?, hbody, Option.bind_some]
      cases hvalid : body.validate with
      | none => simpa [hvalid] using h
      | some put =>
        -- an accepted put is a call of a map
        have hvalue := (hplain key hendpoint put (by rw [hput, hvalid]; rfl)).1
        simp [hput, hvalid, Option.isSome_iff_ne_none.mp hvalue] at hop
  · cases hop
  · cases hop
  · rename_i hputCache hgetCache hdeleteCache
    cases hendpoint : app.endpoint? request with
    | none => exact ⟨rfl, h⟩
    | some endpoint =>
      cases endpoint with
      | health =>
        exact ⟨by simp only [health, h.healthReport_eq halive], h⟩
      | heartbeat nodeId => exact ⟨h.heartbeat_eq clock nodeId, h.beat clock nodeId⟩
      | putCache key => exact absurd hendpoint (hputCache key)
      | getCache key => exact absurd hendpoint (hgetCache key)
      | deleteCache key => exact absurd hendpoint (hdeleteCache key)

/-- A call of a map is served by the cluster. -/
theorem serve_of_op?_eq_some {clock : Clock} {request : HttpRequest V} {op : ClientOp V}
    (hplain : app.Plain request) (hop : app.op? request = some op) :
    app.serve hashToInt c clock request =
      respondWith (fun r => .cache (.ofResult r)) (c.serve hashToInt clock op.call) := by
  rw [op?] at hop
  rw [serve]
  split at hop
  · rename_i key hendpoint
    obtain ⟨put, hput, hmap⟩ := Option.bind_eq_some_iff.mp hop
    obtain ⟨value, hvalue, rfl⟩ := Option.map_eq_some_iff.mp hmap
    obtain ⟨body, hbody, hvalid⟩ := Option.bind_eq_some_iff.mp hput
    have httl := (hplain key hendpoint put hput).2
    rw [hendpoint]
    simp only [hbody, hvalid, putCache, hvalue, httl]
    rfl
  · rename_i key hendpoint
    obtain rfl := Option.some.inj hop
    rw [hendpoint]
    rfl
  · rename_i key hendpoint
    obtain rfl := Option.some.inj hop
    rw [hendpoint]
    rfl
  · cases hop

/-- **One event of a session.** -/
theorem step (h : Session hashToInt ids keys manager c m)
    (hmember : ∃ nodeId, nodeId ∈ manager.nodes) {e : SessionEvent V}
    (hstep : SessionStep hashToInt app keys c e c') :
    e.AnsweredBy hashToInt app manager m ∧
      Session hashToInt ids keys manager c' (e.onMap app m) := by
  cases hstep with
  | beat clock nodeId => exact ⟨trivial, h.beat clock nodeId⟩
  | @exchange c₁ _ clock request response background halive hplain hkeys hserve hrun hquiescent =>
    rw [SessionEvent.AnsweredBy, SessionEvent.onMap]
    cases hop : app.op? request with
    | none =>
      obtain ⟨hresponse, hsession⟩ := h.serve_of_op?_eq_none halive hplain hop
      rw [hserve] at hresponse hsession
      exact ⟨hresponse, hsession.idle hrun⟩
    | some op =>
      have hkey := hkeys op hop
      rw [serve_of_op?_eq_some hplain hop] at hserve
      obtain ⟨hresponse, rfl⟩ := Prod.mk.inj hserve
      obtain ⟨nodeId, hnodeId⟩ := hmember
      rw [← h.nodes] at hnodeId
      have hroom := h.isMap.noEviction_call halive hkey
      have hwell := h.isMap.runWell_client halive hkey (Q := fun _ _ => True)
        (hrun.mono fun _ _ _ hs => ⟨hs.1, trivial, hs.2⟩)
      obtain ⟨r, c₂, hcall, hserved, hserved'⟩ :=
        (h.isMap.mirrors op.key).exists_served halive hroom
      have his : r.Is (op.answer m) := hserved'.answer <| by
        rw [liveOwners_true]
        exact h.isMap.owners_ne_nil hnodeId op.key
      have htells := (answered_of_serve h.kind (congrArg Prod.fst hcall)).tells his
      obtain ⟨-, hmanager, hsame, -⟩ := h.isMap.rest.drained hserved (hcall ▸ hwell) hquiescent
      have hallowed : Observed.UsesKeys keys ⟨c, m⟩ (.call clock op.call) := by
        cases op <;> exact ⟨hkey, nodeId, hnodeId⟩
      obtain ⟨hisMap, hmap⟩ := h.isMap.step (.client halive hallowed rfl
        (hrun.mono fun _ _ _ hs => ⟨hs.1, trivial, hs.2⟩) hquiescent)
      dsimp only at hmap
      rw [hmap] at hisMap
      rw [← h.ring, ← hresponse, hcall]
      exact ⟨htells, hisMap, hsame.kind.trans h.kind, hmanager.nodes.trans h.nodes,
        hmanager.ring.trans h.ring⟩

/-- A session on a cluster that is a map. -/
theorem run (h : Session hashToInt ids keys manager c m)
    (hmember : ∃ nodeId, nodeId ∈ manager.nodes) {events : List (SessionEvent V)}
    (hrun : Run (SessionStep hashToInt app keys) c events c') :
    app.Explained hashToInt manager m events := by
  induction hrun generalizing m with
  | nil c => trivial
  | cons hstep _ ih =>
    obtain ⟨hanswered, hnext⟩ := h.step hmember hstep
    exact ⟨hanswered, ih hnext⟩

end Session

/-! ### The local cluster -/

theorem lookup_buildLocalCluster (clock : Clock) (nodeId key : String) :
    (buildLocalCluster hashToInt clock : DistributedCacheCluster V).transport.lookup nodeId key =
      none := by
  change (localRuntimes clock nodeId).bind _ = none
  rw [localRuntimes]
  cases nodeSpecs.zipIdx.find? fun p => p.1.nodeId = nodeId with
  | none => rfl
  | some p => rfl

theorem capacity_buildLocalCluster {clock : Clock} {nodeId : String} {capacity : ℕ}
    (h : capacity ∈ (buildLocalCluster hashToInt clock :
      DistributedCacheCluster V).transport.capacity nodeId) : capacity = 256 := by
  obtain ⟨rt, hrt, rfl⟩ := Option.map_eq_some_iff.mp h
  obtain ⟨p, -, rfl⟩ := Option.map_eq_some_iff.mp hrt
  rfl

theorem atRest_buildLocalCluster (clock : Clock) :
    (buildLocalCluster hashToInt clock : DistributedCacheCluster V).AtRest hashToInt
      {"node-a", "node-b", "node-c"} where
  manager := .init clock nodeSpecs 3 (by decide +kernel) 32 (by decide) (by simp [nodeSpecs])
  noTtl nodeId key entry hentry := by
    rw [lookup_buildLocalCluster] at hentry
    cases hentry
  answers nodeId hn := by
    obtain ⟨node, hnode, rfl⟩ := ClusterManager.exists_of_mem_nodes_init hn
    simp only [nodeSpecs, List.mem_cons, List.not_mem_nil, or_false] at hnode
    rcases hnode with rfl | rfl | rfl <;> rfl
  quiescent := ⟨rfl, fun task htask => by cases htask⟩

/-- The local cluster begins as an empty map, with room for 256 keys. -/
theorem session_buildLocalCluster {keys : Finset String} (hkeys : keys.card ≤ 256) (clock : Clock)
    (hcf : NoCollision hashToInt 32 {"node-a", "node-b", "node-c"}) :
    Session (V := V) hashToInt {"node-a", "node-b", "node-c"} keys (localManager hashToInt clock)
      (buildLocalCluster hashToInt clock) fun _ => none := by
  refine ⟨Observed.Fresh.isMap ⟨atRest_buildLocalCluster clock, fun nodeId _ key =>
    lookup_buildLocalCluster clock nodeId key, fun nodeId _ capacity hcapacity => ?_, rfl⟩ hcf,
    rfl, rfl, rfl⟩
  rw [capacity_buildLocalCluster hcapacity]
  exact hkeys

/-- **Clients see a map.** The cluster that the gateway starts with answers a session about at most
256 keys as a plain map: whether the key is stored, its value, an owner of it as the server, and
the errors. Its nodes must not collide on the ring. -/
theorem local_cluster_is_map {app : GatewayApp V} {keys : Finset String} {clock : Clock}
    {events : List (SessionEvent V)} {c : DistributedCacheCluster V} (hkeys : keys.card ≤ 256)
    (hcf : NoCollision hashToInt 32 {"node-a", "node-b", "node-c"})
    (hrun : Run (SessionStep hashToInt app keys) (buildLocalCluster hashToInt clock) events c) :
    app.Explained hashToInt (localManager hashToInt clock) (fun _ => none) events := by
  refine (session_buildLocalCluster hkeys clock hcf).run ⟨"node-c", ?_⟩ hrun
  exact OrderedDict.mem_set.mpr (Or.inl rfl)

/-! ### A small session -/

/-- A hash without collisions: the characters of a label are the digits of its position. -/
def digitHash (label : String) : ℕ := Nat.ofDigits (2 ^ 33) (label.toList.map fun c => c.toNat + 1)

theorem digitHash_injective : Function.Injective digitHash := by
  intro a b h
  have hdigits : ∀ label, Nat.digits (2 ^ 33) (digitHash label) =
      label.toList.map fun c => c.toNat + 1 := by
    intro label
    refine Nat.digits_ofDigits _ (by decide) _ (fun d hd => ?_) fun hne => ?_
    · obtain ⟨c, -, rfl⟩ := List.mem_map.mp hd
      have hlt : c.toNat < 2 ^ 32 := c.val.toNat_lt
      omega
    · simp
  have hmap := (hdigits a).symm.trans ((congrArg _ h).trans (hdigits b))
  refine String.toList_inj.mp (List.map_injective_iff.mpr (fun c d hcd => ?_) hmap)
  exact Char.toNat_inj.mp (Nat.succ.inj hcd)

def sampleApp : GatewayApp ℕ := ⟨.replacing, fun _ => ⟨404, .detail "Not Found"⟩⟩

/-- A put of `k`, quoted without need. -/
def samplePut : HttpRequest ℕ := ⟨.put, "/cache/%6B".toList, some ⟨some (some 1), none⟩⟩

/-- A put with a negative lifetime. -/
def sampleRefused : HttpRequest ℕ := ⟨.put, "/cache/k".toList, some ⟨some (some 2), some (-1)⟩⟩

def sampleGet : HttpRequest ℕ := ⟨.get, "/cache/k".toList, none⟩

/-- A put is acknowledged, another one refused, and a get reads the first. -/
def sampleSession : List (SessionEvent ℕ) :=
  [.exchange (fun _ => 0) samplePut ⟨200, .cache ⟨true, 200, none, none, some "node-a"⟩⟩
      [.replicate 0 (fun _ => 0) .carriedOut],
    .exchange (fun _ => 1) sampleRefused ⟨422, .validationErrors⟩ [],
    .exchange (fun _ => 1) sampleGet ⟨200, .cache ⟨true, 200, none, some 1, some "node-a"⟩⟩ []]

private theorem exists_sampleSession : ∃ c, Run (SessionStep digitHash sampleApp {"k"})
    (buildLocalCluster digitHash fun _ => 0) sampleSession c := by
  let start : DistributedCacheCluster ℕ := buildLocalCluster digitHash fun _ => 0
  have hput : sampleApp.endpoint? samplePut = some (.putCache "k") := by decide +kernel
  have hrefused : sampleApp.endpoint? sampleRefused = some (.putCache "k") := by decide +kernel
  have hget : sampleApp.endpoint? sampleGet = some (.getCache "k") := by decide +kernel
  have hvalid : putRequest? sampleRefused = none := by decide +kernel
  obtain ⟨d, hd⟩ : ∃ d, d = (sampleApp.serve digitHash start (fun _ => 0) samplePut).2 := ⟨_, rfl⟩
  have hstored : (sampleApp.serve digitHash start (fun _ => 0) samplePut).1 =
      ⟨200, .cache ⟨true, 200, none, none, some "node-a"⟩⟩ := by decide +kernel
  have hfirst : sampleApp.serve digitHash start (fun _ => 0) samplePut =
      (⟨200, .cache ⟨true, 200, none, none, some "node-a"⟩⟩, d) := Prod.ext hstored hd.symm
  obtain ⟨c, hrun, hc⟩ := exists_run digitHash
    (sampleApp.serve digitHash start (fun _ => 0) samplePut).2
    [.replicate 0 (fun _ => 0) .carriedOut]
    (fun c => decide (c.Quiescent ∧
      (∀ nodeId ∈ c.manager.nodes.keys, c.manager.isAlive 1 nodeId = true) ∧
      (sampleApp.serve digitHash c (fun _ => 1) sampleGet).1 =
        ⟨200, .cache ⟨true, 200, none, some 1, some "node-a"⟩⟩ ∧
      (sampleApp.serve digitHash c (fun _ => 1) sampleGet).2.Quiescent)) (by decide +kernel)
  rw [← hd] at hrun
  obtain ⟨hquiescent, halive, hfound, hend⟩ := of_decide_eq_true hc
  have hsecond : sampleApp.serve digitHash c (fun _ => 1) sampleRefused =
      (⟨422, .validationErrors⟩, c) := by
    rw [serve, hrefused]
    rfl
  have hstart : ∀ nodeId ∈ start.manager.nodes.keys, start.manager.isAlive 0 nodeId = true := by
    decide +kernel
  refine ⟨_, .cons (.exchange (allAlive_const hstart) ?_ ?_ hfirst
      (hrun.mono fun _ _ _ hs => ⟨hs.1, hs.2.2⟩) hquiescent)
    (.cons (.exchange (allAlive_const halive) ?_ ?_ hsecond (.nil c) hquiescent)
      (.single (.exchange (allAlive_const halive) ?_ ?_ (Prod.ext hfound rfl) (.nil _) hend)))⟩
  · intro key _ put hmem
    obtain rfl := Option.some.inj hmem
    exact ⟨rfl, rfl⟩
  · intro op hop
    rw [op?, hput] at hop
    obtain rfl := Option.some.inj hop
    exact Finset.mem_singleton_self _
  · intro key _ put hmem
    simp [hvalid] at hmem
  · intro op hop
    simp [op?, hrefused, hvalid] at hop
  · intro key hkey
    rw [hget] at hkey
    cases hkey
  · intro op hop
    rw [op?, hget] at hop
    obtain rfl := Option.some.inj hop
    exact Finset.mem_singleton_self _

/-- `local_cluster_is_map` on a session of three requests. -/
theorem local_cluster_is_map_sample :
    (∃ c, Run (SessionStep digitHash sampleApp {"k"}) (buildLocalCluster digitHash fun _ => 0)
      sampleSession c) ∧
    sampleApp.Explained digitHash (localManager digitHash fun _ => 0) (fun _ => none)
      sampleSession := by
  obtain ⟨c, hrun⟩ := exists_sampleSession
  exact ⟨⟨c, hrun⟩, local_cluster_is_map (by decide)
    (fun a _ b _ i _ j _ h => digitHash_injective h) hrun⟩

end GatewayApp

end DistributedCache
