import DistributedCache.Cluster.KeyView

/-!
# Background steps refine the relocation machine

As long as no entry has a lifetime and no put evicts, every step of the background loop is, for
every key, a step of the relocation machine, or leaves what the key sees as it is. Such steps
keep a cluster healthy.

## Main results

* `DistributedCacheCluster.Healthy.runBackground` : background steps keep the cluster healthy.
* `DistributedCacheCluster.refines_runBackground` : background steps are steps of the machine.
-/

namespace DistributedCache

open Library Library.Relocation

variable {V : Type*} {hashToInt : String → ℕ} {key : String}

/-- A scheduled call writes what it says, unless it fails. -/
theorem NodeTransport.runTask_eq {t : NodeTransport V} {clock : Clock} {outcome : CallOutcome}
    {call : MigrationTask V} (hanswers : t.Answers call.nodeId)
    (hroom : outcome = .carriedOut → ∀ node key value ttlSeconds,
      call = .put node key value ttlSeconds → t.HasRoom node.nodeId key)
    (httl : ∀ node key value ttlSeconds, call = .put node key value ttlSeconds →
      ttlSeconds = none) :
    (outcome = .carriedOut ∧ ∃ k w, call.write k = some w ∧ (∀ k' ≠ k, call.write k' = none) ∧
      t.Writes w.node k w.value (t.runTask clock outcome call)) ∨
    (outcome ≠ .carriedOut ∧ t.runTask clock outcome call = t) := by
  cases call with
  | put node k value ttlSeconds =>
    obtain rfl := httl _ _ _ _ rfl
    rcases NodeTransport.limitedPut_eq clock (fun h => hroom h _ _ _ _ rfl) value with
      ⟨h, -, hw⟩ | ⟨h, heq⟩
    · refine Or.inl ⟨h, k, ⟨node.nodeId, some ⟨value, none⟩⟩, ?_, fun k' hk' => ?_, hw⟩
      · rw [MigrationTask.write, if_pos rfl]
      · rw [MigrationTask.write, if_neg (Ne.symm hk')]
    · exact Or.inr ⟨fun hc => h ⟨hc, hanswers⟩, heq⟩
  | delete node k =>
    rcases t.limitedDelete_eq clock outcome node k with ⟨h, -, hw⟩ | ⟨h, heq⟩
    · refine Or.inl ⟨h, k, ⟨node.nodeId, none⟩, ?_, fun k' hk' => ?_, hw⟩
      · rw [MigrationTask.write, if_pos rfl]
      · rw [MigrationTask.write, if_neg (Ne.symm hk')]
    · exact Or.inr ⟨fun hc => h ⟨hc, hanswers⟩, heq⟩

namespace DistributedCacheCluster

variable {c c' : DistributedCacheCluster V} {s : BackgroundStep}

/-- What the background loop leaves alone: the manager, the nodes it reaches, and which
rebalances there are. It submits nothing. -/
structure FrontKept (c c' : DistributedCacheCluster V) : Prop where
  manager : c'.manager = c.manager
  sameNodes : c.transport.SameNodes c'.transport
  rebalanceFuture : c'.rebalanceFuture = c.rebalanceFuture
  replicaWrites : c'.replicaWrites.Sublist c.replicaWrites
  length : c'.rebalances.length = c.rebalances.length

theorem frontKept_setPhase (c : DistributedCacheCluster V) {transport : NodeTransport V}
    (hsame : c.transport.SameNodes transport) (index : ℕ) (task : RebalanceTask V)
    (phase : RebalancePhase V) :
    FrontKept c ({ c with transport := transport }.setPhase index task phase) :=
  ⟨rfl, hsame, rfl, List.Sublist.refl _, List.length_set⟩

theorem frontKept_runBackground (h : c.runBackground hashToInt s = some c') :
    FrontKept c c' := by
  cases s with
  | replicate index clock outcome =>
    obtain ⟨w, -, rfl⟩ := runBackground_replicate h
    exact ⟨rfl, c.transport.sameNodes_limitedPut _ _ _ _ _ _, rfl, List.eraseIdx_sublist _ _, rfl⟩
  | begin index =>
    obtain ⟨task, -, -, rfl⟩ := runBackground_begin h
    exact frontKept_setPhase c (.refl _) index task _
  | snapshot index now outcome =>
    obtain ⟨task, ring, node, todo, snapshots, -, -, ⟨-, rfl⟩ | ⟨entries, transport, htry, rfl⟩⟩ :=
      runBackground_snapshot h
    · exact frontKept_setPhase c (.refl _) index task _
    · exact frontKept_setPhase c (NodeTransport.sameNodes_trySnapshot htry) index task _
  | plan index now clock =>
    obtain ⟨task, ring, snapshots, -, -, rfl⟩ := runBackground_plan h
    exact frontKept_setPhase c (.refl _) index task _
  | migrate index i clock outcome =>
    obtain ⟨task, ring, pending, call, -, -, -, rfl⟩ := runBackground_migrate h
    exact frontKept_setPhase c (c.transport.sameNodes_runTask clock outcome call) index task _
  | cleanup nodeId now =>
    obtain rfl := Option.some.inj h
    exact ⟨rfl, c.transport.sameNodes_cleanup now nodeId, rfl, List.Sublist.refl _, rfl⟩

theorem FrontKept.refl (c : DistributedCacheCluster V) : FrontKept c c :=
  ⟨rfl, .refl _, rfl, List.Sublist.refl _, rfl⟩

theorem FrontKept.trans {c'' : DistributedCacheCluster V} (h : FrontKept c c')
    (h' : FrontKept c' c'') : FrontKept c c'' :=
  ⟨h'.manager.trans h.manager, h.sameNodes.trans h'.sameNodes,
    h'.rebalanceFuture.trans h.rebalanceFuture, h'.replicaWrites.trans h.replicaWrites,
    h'.length.trans h.length⟩

/-! ### Healthy clusters stay healthy -/

theorem Quiescent.noTtl (h : c.Quiescent) (httl : c.transport.NoTtl) : c.NoTtl := by
  refine ⟨httl, fun w hw => ?_, fun task htask => ?_⟩
  · rw [h.replicaWrites] at hw
    cases hw
  · obtain ⟨ring, hphase⟩ := done_iff.mp (h.rebalances task htask)
    rw [hphase]
    intro node k value ttlSeconds hput
    cases hput

/-- Without background work a cluster is healthy when its members answer and no entry has a
lifetime. -/
theorem Quiescent.healthy (h : c.Quiescent) (hcoherent : c.manager.Coherent hashToInt)
    (httl : c.transport.NoTtl)
    (hanswers : ∀ nodeId ∈ c.manager.nodes, c.transport.Answers nodeId) :
    c.Healthy hashToInt := by
  refine ⟨hcoherent, h.noTtl httl, hanswers, fun w hw => ?_, fun task htask nodeId hn => ?_⟩
  · rw [h.replicaWrites] at hw
    cases hw
  · obtain ⟨ring, hphase⟩ := done_iff.mp (h.rebalances task htask)
    rw [hphase] at hn
    cases hn

/-- A healthy cluster stays healthy when one rebalance goes on and entries without lifetimes are
written. -/
private theorem Healthy.setPhase (h : c.Healthy hashToInt) {transport : NodeTransport V}
    (hsame : c.transport.SameNodes transport) (hnoTtl : transport.NoTtl) {index : ℕ}
    {task : RebalanceTask V} {phase : RebalancePhase V} (hphase : phase.NoTtl)
    (htargets : ∀ nodeId ∈ phase.targets, nodeId ∈ c.manager.nodes) :
    ({ c with transport := transport }.setPhase index task phase).Healthy hashToInt where
  coherent := h.coherent
  noTtl := by
    refine ⟨hnoTtl, h.noTtl.replicaWrites, fun task' htask' => ?_⟩
    rcases List.mem_or_eq_of_mem_set htask' with hmem | rfl
    · exact h.noTtl.rebalances task' hmem
    · exact hphase
  answers nodeId hn := hsame.answers_iff.mpr (h.answers nodeId hn)
  replicaTargets := h.replicaTargets
  targets task' htask' := by
    rcases List.mem_or_eq_of_mem_set htask' with hmem | rfl
    · exact h.targets task' hmem
    · exact htargets

theorem Healthy.rebalance (h : c.Healthy hashToInt) {index : ℕ} {task : RebalanceTask V}
    (htask : c.rebalances[index]? = some task) :
    task.phase.NoTtl ∧ ∀ nodeId ∈ task.phase.targets, nodeId ∈ c.manager.nodes :=
  ⟨h.noTtl.rebalances task (List.mem_of_getElem? htask), h.targets task
    (List.mem_of_getElem? htask)⟩

/-- A call that a healthy cluster has scheduled. -/
private theorem Healthy.runTask_eq (h : c.Healthy hashToInt) {index i : ℕ} {clock : Clock}
    {outcome : CallOutcome}
    (hroom : c.NoEviction hashToInt (.background (.migrate index i clock outcome)))
    {task : RebalanceTask V} {ring : ConsistentHashRing} {pending : List (MigrationTask V)}
    {call : MigrationTask V} (htask : c.rebalances[index]? = some task)
    (hphase : task.phase = .migrating ring pending) (hcall : pending[i]? = some call) :
    (outcome = .carriedOut ∧ ∃ k w, call.write k = some w ∧ (∀ k' ≠ k, call.write k' = none) ∧
      c.transport.Writes w.node k w.value (c.transport.runTask clock outcome call)) ∨
    (outcome ≠ .carriedOut ∧ c.transport.runTask clock outcome call = c.transport) := by
  have hmem : call ∈ pending := List.mem_of_getElem? hcall
  have hscheduled := scheduledCall_eq htask hphase hcall
  obtain ⟨hnoTtl, htargets⟩ := h.rebalance htask
  rw [hphase] at hnoTtl htargets
  refine NodeTransport.runTask_eq (h.answers _ (htargets _ (List.mem_map_of_mem hmem))) ?_ ?_
  · rintro rfl node k value ttlSeconds rfl
    refine hroom (node.nodeId, k) ?_
    rw [putCell, hscheduled]
    rfl
  · rintro node k value ttlSeconds rfl
    exact hnoTtl node k value ttlSeconds hmem

private theorem write_value_noTtl {call : MigrationTask V} {k : String}
    {w : Write String (CacheEntry V)} (hw : call.write k = some w) :
    ∀ e ∈ w.value, e.expiresAt = none := by
  cases call with
  | put node k' value ttlSeconds =>
    rw [MigrationTask.write] at hw
    split_ifs at hw
    obtain rfl := Option.some.inj hw
    rintro e he
    rw [← Option.some.inj he]
  | delete node k' =>
    rw [MigrationTask.write] at hw
    split_ifs at hw
    obtain rfl := Option.some.inj hw
    rintro e he
    cases he

/-- The puts of a plan carry no lifetime when the snapshots have none. -/
private theorem plan_noTtl {x : PlanInput V} {change : TopologyChange}
    (httl : ∀ nodeId key entry, x.snapshots.seen key nodeId = some (some entry) →
      entry.expiresAt = none) {ring : ConsistentHashRing} :
    (RebalancePhase.migrating ring (x.plan hashToInt change)).NoTtl := by
  intro node k value ttlSeconds hput
  obtain ⟨-, entry, nodeId, hm, -⟩ := PlanInput.put_mem_plan_iff.mp hput
  rw [PlanInput.migration] at hm
  split_ifs at hm
  obtain ⟨entry', hsource, hm⟩ := Option.bind_eq_some_iff.mp hm
  obtain ⟨source, hseen⟩ := PlanInput.source_eq_some hsource
  rw [httl source k entry' hseen, migratedTtl, Option.map_some] at hm
  exact (Prod.mk.inj (Option.some.inj hm)).2.symm

/-- All calls of a plan are to members. -/
theorem plan_targets {x : PlanInput V} {change : TopologyChange}
    (hnodup : (x.nodes.map NodeConfig.nodeId).Nodup) {ring : ConsistentHashRing}
    {nodeId : String}
    (h : nodeId ∈ (RebalancePhase.migrating ring (x.plan hashToInt change)).targets) :
    nodeId ∈ x.nodes.map NodeConfig.nodeId := by
  obtain ⟨call, hcall, rfl⟩ := List.mem_map.mp h
  cases call with
  | put node k value ttlSeconds =>
    obtain ⟨-, entry, nodeId, -, -, -, hnode, -⟩ := PlanInput.put_mem_plan_iff.mp hcall
    exact List.mem_map_of_mem ((get?_nodesById hnodup).mp hnode).1
  | delete node k =>
    obtain ⟨-, nodeId, -, -, hnode, -⟩ := PlanInput.delete_mem_plan_iff.mp hcall
    exact List.mem_map_of_mem ((get?_nodesById hnodup).mp hnode).1

/-- The call of a replica write that a healthy cluster has submitted. -/
theorem Healthy.limitedPut_eq (h : c.Healthy hashToInt) {index : ℕ} {clock : Clock}
    {outcome : CallOutcome}
    (hroom : c.NoEviction hashToInt (.background (.replicate index clock outcome)))
    {w : ReplicaWrite V} (hw : c.replicaWrites[index]? = some w) :
    (outcome = .carriedOut ∧ c.transport.Writes w.node.nodeId w.key (some ⟨w.value, none⟩)
      (c.transport.limitedPut clock outcome w.node w.key w.value w.ttlSeconds)) ∨
    (outcome ≠ .carriedOut ∧
      c.transport.limitedPut clock outcome w.node w.key w.value w.ttlSeconds = c.transport) := by
  have hmem : w ∈ c.replicaWrites := List.mem_of_getElem? hw
  have hroom' : outcome = .carriedOut → c.transport.HasRoom w.node.nodeId w.key := by
    rintro rfl
    exact hroom (w.node.nodeId, w.key) (by rw [putCell, hw]; rfl)
  have hanswers := h.answers _ (h.replicaTargets w hmem)
  rw [h.noTtl.replicaWrites w hmem]
  rcases NodeTransport.limitedPut_eq clock hroom' w.value with ⟨hout, -, hwrites⟩ | ⟨hout, heq⟩
  · exact Or.inl ⟨hout, hwrites⟩
  · exact Or.inr ⟨fun hc => hout ⟨hc, hanswers⟩, heq⟩

private theorem Healthy.replicate (h : c.Healthy hashToInt) {index : ℕ} {clock : Clock}
    {outcome : CallOutcome}
    (hroom : c.NoEviction hashToInt (.background (.replicate index clock outcome)))
    (hs : c.runBackground hashToInt (.replicate index clock outcome) = some c') :
    c'.Healthy hashToInt := by
  obtain ⟨w, hw, rfl⟩ := runBackground_replicate hs
  have htransport : c.transport.SameNodes
      (c.transport.limitedPut clock outcome w.node w.key w.value w.ttlSeconds) ∧
      (c.transport.limitedPut clock outcome w.node w.key w.value w.ttlSeconds).NoTtl := by
    rcases h.limitedPut_eq hroom hw with ⟨-, hwrites⟩ | ⟨-, heq⟩
    · refine ⟨hwrites.toSameNodes, h.noTtl.transport.writes hwrites fun e he => ?_⟩
      rw [← Option.some.inj he]
    · rw [heq]
      exact ⟨.refl _, h.noTtl.transport⟩
  exact ⟨h.coherent,
    ⟨htransport.2, fun w' hw' => h.noTtl.replicaWrites w' (List.mem_of_mem_eraseIdx hw'),
      h.noTtl.rebalances⟩,
    fun nodeId hn => htransport.1.answers_iff.mpr (h.answers nodeId hn),
    fun w' hw' => h.replicaTargets w' (List.mem_of_mem_eraseIdx hw'), h.targets⟩

private theorem Healthy.snapshot (h : c.Healthy hashToInt) {index : ℕ} {now : Time}
    {outcome : CallOutcome}
    (hs : c.runBackground hashToInt (.snapshot index now outcome) = some c') :
    c'.Healthy hashToInt := by
  obtain ⟨task, ring, node, todo, snapshots, htask, hphase, hs⟩ := runBackground_snapshot hs
  obtain ⟨hnoTtl, htargets⟩ := h.rebalance htask
  rw [hphase] at hnoTtl htargets
  rcases hs with ⟨-, rfl⟩ | ⟨entries, transport, htry, rfl⟩
  · refine Healthy.setPhase h (.refl c.transport) h.noTtl.transport ?_ fun nodeId hn => ?_
    · intro node k value ttlSeconds hput
      cases hput
    · cases hn
  · rcases c.transport.trySnapshot_eq h.noTtl.transport now outcome node with
      ⟨-, -, entries', transport', htry', hentries, hkeeps⟩ | ⟨-, hnone⟩
    · rw [htry] at htry'
      obtain ⟨rfl, rfl⟩ := Prod.mk.inj (Option.some.inj htry')
      refine Healthy.setPhase h hkeeps.toSameNodes (h.noTtl.transport.keeps hkeeps) ?_
        fun nodeId hn => htargets nodeId (List.mem_cons_of_mem _ hn)
      intro nodeId k entry hseen
      obtain ⟨entries', hget, hentry⟩ := seen_eq_some.mp hseen
      rw [OrderedDict.get?_set] at hget
      split_ifs at hget
      · rw [← Option.some.inj hget, hentries] at hentry
        exact h.noTtl.transport _ _ _ hentry
      · exact hnoTtl nodeId k entry (seen_eq_some.mpr ⟨entries', hget, hentry⟩)
    · rw [hnone] at htry
      cases htry

private theorem Healthy.migrate (h : c.Healthy hashToInt) {index i : ℕ} {clock : Clock}
    {outcome : CallOutcome}
    (hroom : c.NoEviction hashToInt (.background (.migrate index i clock outcome)))
    (hs : c.runBackground hashToInt (.migrate index i clock outcome) = some c') :
    c'.Healthy hashToInt := by
  obtain ⟨task, ring, pending, call, htask, hphase, hcall, rfl⟩ := runBackground_migrate hs
  have htransport : c.transport.SameNodes (c.transport.runTask clock outcome call) ∧
      (c.transport.runTask clock outcome call).NoTtl := by
    rcases h.runTask_eq hroom htask hphase hcall with ⟨-, k, w, hw, -, hwrites⟩ | ⟨-, heq⟩
    · exact ⟨hwrites.toSameNodes, h.noTtl.transport.writes hwrites (write_value_noTtl hw)⟩
    · rw [heq]
      exact ⟨.refl _, h.noTtl.transport⟩
  obtain ⟨hnoTtl, htargets⟩ := h.rebalance htask
  rw [hphase] at hnoTtl htargets
  refine Healthy.setPhase h htransport.1 htransport.2 ?_ fun nodeId hn => ?_
  · exact fun node k value ttlSeconds hput =>
      hnoTtl node k value ttlSeconds (List.mem_of_mem_eraseIdx hput)
  · refine htargets nodeId ?_
    obtain ⟨call', hcall', rfl⟩ := List.mem_map.mp hn
    exact List.mem_map_of_mem (List.mem_of_mem_eraseIdx hcall')

/-- Background steps without eviction keep a cluster healthy. -/
theorem Healthy.runBackground (h : c.Healthy hashToInt)
    (hroom : c.NoEviction hashToInt (.background s))
    (hs : c.runBackground hashToInt s = some c') : c'.Healthy hashToInt := by
  have hids : (c.manager.getAllNodes.map NodeConfig.nodeId).Nodup := by
    rw [h.coherent.map_nodeId_getAllNodes]
    exact c.manager.nodes.keys_nodup
  cases s with
  | replicate index clock outcome => exact h.replicate hroom hs
  | begin index =>
    obtain ⟨task, -, -, rfl⟩ := runBackground_begin hs
    refine Healthy.setPhase h (.refl c.transport) h.noTtl.transport ?_ fun nodeId hn => ?_
    · intro nodeId k entry hseen
      simp [Snapshots.seen] at hseen
    · change nodeId ∈ c.manager.getAllNodes.map NodeConfig.nodeId at hn
      rwa [h.coherent.map_nodeId_getAllNodes] at hn
  | snapshot index now outcome => exact h.snapshot hs
  | plan index now clock =>
    obtain ⟨task, ring, snapshots, htask, hphase, rfl⟩ := runBackground_plan hs
    obtain ⟨hnoTtl, htargets⟩ := h.rebalance htask
    rw [hphase] at hnoTtl
    refine Healthy.setPhase h (.refl c.transport) h.noTtl.transport
      (plan_noTtl (x := c.planInput task ring snapshots now clock) hnoTtl) fun nodeId hn => ?_
    have hmember := plan_targets hids hn
    rwa [planInput, h.coherent.map_nodeId_getAllNodes] at hmember
  | migrate index i clock outcome => exact h.migrate hroom hs
  | cleanup nodeId now =>
    obtain rfl := Option.some.inj hs
    have hkeeps := NodeTransport.keeps_cleanup h.noTtl.transport now nodeId
    exact ⟨h.coherent, ⟨h.noTtl.transport.keeps hkeeps, h.noTtl.replicaWrites, h.noTtl.rebalances⟩,
      fun id hid => hkeeps.toSameNodes.answers_iff.mpr (h.answers id hid), h.replicaTargets,
      h.targets⟩

/-! ### The refinement -/

theorem keyView_setPhase (c : DistributedCacheCluster V) (index : ℕ) (task : RebalanceTask V)
    (phase : RebalancePhase V) : (c.setPhase index task phase).keyView hashToInt key =
      (c.keyView hashToInt key).setPhase index (task.previousRing.ownerSet hashToInt key)
        (phase.view hashToInt key) := by
  simp only [keyView, setPhase, State.setPhase, List.map_set]
  rfl

theorem getElem?_jobs_keyView (hashToInt : String → ℕ) (key : String) {index : ℕ}
    {task : RebalanceTask V} {phase : RebalancePhase V}
    (htask : c.rebalances[index]? = some task) (hphase : task.phase = phase) :
    (c.keyView hashToInt key).jobs[index]? =
      some ⟨task.previousRing.ownerSet hashToInt key, phase.view hashToInt key⟩ := by
  rw [keyView, List.getElem?_map, htask, Option.map_some, RebalanceTask.view, hphase]

/-- A transport that keeps the entries shows the key the same copies. -/
theorem keyView_of_keeps {transport : NodeTransport V} (h : c.transport.Keeps transport) :
    { c with transport := transport }.keyView hashToInt key = c.keyView hashToInt key := by
  simp only [keyView, h.lookup]

/-- A write of the key is a write of its copy. -/
theorem keyView_of_writes {transport : NodeTransport V} {w : Write String (CacheEntry V)}
    (h : c.transport.Writes w.node key w.value transport) :
    { c with transport := transport }.keyView hashToInt key = (c.keyView hashToInt key).write w := by
  simp only [keyView, State.write, h.lookup, and_true]
  congr 1
  funext nodeId
  by_cases hn : nodeId = w.node
  · rw [if_pos hn, hn, Function.update_self]
  · rw [if_neg hn, Function.update_of_ne hn]

/-- A write of another key does not show. -/
theorem keyView_of_writes_ne {transport : NodeTransport V} {nodeId key' : String}
    {entry : Option (CacheEntry V)} (hne : key ≠ key')
    (h : c.transport.Writes nodeId key' entry transport) :
    { c with transport := transport }.keyView hashToInt key = c.keyView hashToInt key := by
  simp only [keyView, h.lookup, hne, and_false, if_false]

private theorem mem_pendingWrites_eraseIdx {pending : List (MigrationTask V)} {i : ℕ}
    {call : MigrationTask V} (hcall : pending[i]? = some call)
    {w : Write String (CacheEntry V)} (hw : w ∈ pendingWrites key pending) :
    call.write key = some w ∨ w ∈ pendingWrites key (pending.eraseIdx i) := by
  obtain ⟨call', hmem, hw⟩ := hw
  by_cases hsame : call' = call
  · exact Or.inl (hsame ▸ hw)
  · exact Or.inr ⟨call', mem_eraseIdx_of_ne hcall hmem hsame, hw⟩

private theorem pendingWrites_eraseIdx_subset (pending : List (MigrationTask V)) (i : ℕ) :
    pendingWrites key (pending.eraseIdx i) ⊆ pendingWrites key pending := by
  rintro w ⟨call, hmem, hw⟩
  exact ⟨call, List.mem_of_mem_eraseIdx hmem, hw⟩

private theorem pendingWrites_eraseIdx_eq {pending : List (MigrationTask V)} {i : ℕ}
    {call : MigrationTask V} (hcall : pending[i]? = some call) (hnone : call.write key = none) :
    pendingWrites key (pending.eraseIdx i) = pendingWrites key pending := by
  refine Set.Subset.antisymm (pendingWrites_eraseIdx_subset pending i) fun w hw => ?_
  refine (mem_pendingWrites_eraseIdx hcall hw).resolve_left ?_
  rw [hnone]
  exact Option.some_ne_none w |>.symm

/-- A phase that shows the key the same job does not show. -/
private theorem setPhase_keyView_self {index : ℕ} {task : RebalanceTask V}
    {phase phase' : RebalancePhase V} (htask : c.rebalances[index]? = some task)
    (hphase : task.phase = phase)
    (hview : phase'.view hashToInt key = phase.view hashToInt key) :
    (c.keyView hashToInt key).setPhase index (task.previousRing.ownerSet hashToInt key)
      (phase'.view hashToInt key) = c.keyView hashToInt key := by
  obtain ⟨hlt, hjob⟩ := List.getElem?_eq_some_iff.mp
    (getElem?_jobs_keyView hashToInt key htask hphase)
  rw [State.setPhase, hview, ← hjob, List.set_getElem_self]

private theorem refines_replicate (h : c.Healthy hashToInt) {index : ℕ} {clock : Clock}
    {outcome : CallOutcome}
    (hroom : c.NoEviction hashToInt (.background (.replicate index clock outcome)))
    (hs : c.runBackground hashToInt (.replicate index clock outcome) = some c') (key : String) :
    StepOrStay (c.keyView hashToInt key) (c.actionOf key (.replicate index clock outcome))
      (c'.keyView hashToInt key) := by
  obtain ⟨w, hw, rfl⟩ := runBackground_replicate hs
  rw [actionOf, hw, Option.bind_some]
  rcases h.limitedPut_eq hroom hw with ⟨hout, hwrites⟩ | ⟨hout, heq⟩
  · rw [if_pos hout, ReplicaWrite.write]
    split_ifs with hk
    · subst hk
      let copy : Write String (CacheEntry V) := ⟨w.node.nodeId, some ⟨w.value, none⟩⟩
      have hview : { c with transport := _ }.keyView hashToInt w.key =
          (c.keyView hashToInt w.key).write copy := keyView_of_writes hwrites
      exact hview ▸ .store copy
    · exact keyView_of_writes_ne (Ne.symm hk) hwrites
  · rw [if_neg hout, heq]
    rfl

/-- What a collected snapshot shows of a key. -/
private theorem seen_set {snapshots : Snapshots V} {nodeId : String}
    {entries : OrderedDict String (CacheEntry V)} {x : Option (CacheEntry V)}
    (h : entries.get? key = x) : Snapshots.seen key (snapshots.set nodeId entries) =
      Function.update (snapshots.seen key) nodeId (some x) := by
  funext n
  by_cases hn : n = nodeId
  · rw [hn, Function.update_self, Snapshots.seen, OrderedDict.get?_set_self, Option.map_some, h]
  · rw [Function.update_of_ne hn, Snapshots.seen, OrderedDict.get?_set_of_ne _ _ hn,
      Snapshots.seen]

private theorem refines_snapshot (h : c.Healthy hashToInt) {index : ℕ} {now : Time}
    {outcome : CallOutcome}
    (hs : c.runBackground hashToInt (.snapshot index now outcome) = some c') (key : String) :
    StepOrStay (c.keyView hashToInt key) (c.actionOf key (.snapshot index now outcome))
      (c'.keyView hashToInt key) := by
  obtain ⟨task, ring, node, todo, snapshots, htask, hphase, hs⟩ := runBackground_snapshot hs
  have hjob := getElem?_jobs_keyView hashToInt key htask hphase
  obtain ⟨-, htargets⟩ := h.rebalance htask
  rw [hphase] at htargets
  have hanswers := h.answers _ (htargets node.nodeId List.mem_cons_self)
  rw [actionOf]
  rcases c.transport.trySnapshot_eq h.noTtl.transport now outcome node with
    ⟨hout, -, entries, transport, htry, hentries, hkeeps⟩ | ⟨hout, hnone⟩
  · rcases hs with ⟨hnone, -⟩ | ⟨entries', transport', htry', rfl⟩
    · rw [htry] at hnone
      cases hnone
    · rw [htry] at htry'
      obtain ⟨rfl, rfl⟩ := Prod.mk.inj (Option.some.inj htry')
      rw [if_pos hout, keyView_setPhase, keyView_of_keeps hkeeps, RebalancePhase.view,
        seen_set (hentries key)]
      exact .read hjob
  · rcases hs with ⟨-, rfl⟩ | ⟨entries', transport', htry', -⟩
    · rw [if_neg fun hc => hout ⟨hc, hanswers⟩, keyView_setPhase, RebalancePhase.view,
        pendingWrites_nil]
      exact .abort hjob
    · rw [hnone] at htry'
      cases htry'

private theorem refines_migrate (h : c.Healthy hashToInt) {index i : ℕ} {clock : Clock}
    {outcome : CallOutcome}
    (hroom : c.NoEviction hashToInt (.background (.migrate index i clock outcome)))
    (hs : c.runBackground hashToInt (.migrate index i clock outcome) = some c') (key : String) :
    StepOrStay (c.keyView hashToInt key) (c.actionOf key (.migrate index i clock outcome))
      (c'.keyView hashToInt key) := by
  obtain ⟨task, ring, pending, call, htask, hphase, hcall, rfl⟩ := runBackground_migrate hs
  have hjob := getElem?_jobs_keyView hashToInt key htask hphase
  have hscheduled := scheduledCall_eq htask hphase hcall
  have hmem : call ∈ pending := List.mem_of_getElem? hcall
  rw [actionOf, hscheduled, Option.bind_some, keyView_setPhase]
  rcases h.runTask_eq hroom htask hphase hcall with
    ⟨hout, k, w, hw, hother, hwrites⟩ | ⟨hout, heq⟩
  · by_cases hk : key = k
    · subst hk
      rw [hw, Option.map_some, if_pos hout, keyView_of_writes hwrites]
      refine .perform hjob ⟨call, hmem, hw⟩ (pendingWrites_eraseIdx_subset pending i)
        fun w' hw' => (mem_pendingWrites_eraseIdx hcall hw').imp_left fun heq => ?_
      exact (Option.some.inj (hw.symm.trans heq)).symm
    · rw [hother key hk, Option.map_none, keyView_of_writes_ne hk hwrites]
      refine setPhase_keyView_self htask hphase ?_
      rw [RebalancePhase.view, RebalancePhase.view,
        pendingWrites_eraseIdx_eq hcall (hother key hk)]
  · rw [heq]
    cases hw : call.write key with
    | none =>
      refine setPhase_keyView_self htask hphase ?_
      rw [RebalancePhase.view, RebalancePhase.view, pendingWrites_eraseIdx_eq hcall hw]
    | some w =>
      rw [Option.map_some, if_neg hout]
      exact .skip hjob ⟨call, hmem, hw⟩ (pendingWrites_eraseIdx_subset pending i)

/-- **Background steps refine the relocation machine.** In a healthy cluster and without
eviction, every step of the background loop is for every key a step of the machine that moves
the copies of one item, or does not concern the key. -/
theorem refines_runBackground (h : c.Healthy hashToInt)
    (hroom : c.NoEviction hashToInt (.background s))
    (hs : c.runBackground hashToInt s = some c') (key : String) :
    StepOrStay (c.keyView hashToInt key) (c.actionOf key s) (c'.keyView hashToInt key) := by
  cases s with
  | replicate index clock outcome => exact refines_replicate h hroom hs key
  | begin index =>
    obtain ⟨task, htask, hphase, rfl⟩ := runBackground_begin hs
    have hjob := getElem?_jobs_keyView hashToInt key htask hphase
    have hview : (RebalancePhase.collecting (V := V) c.manager.copyRing c.manager.getAllNodes
        .empty).view hashToInt key = .reading (c.keyView hashToInt key).goal
          (c.keyView hashToInt key).members fun _ => none := by
      rw [RebalancePhase.view, h.coherent.map_nodeId_getAllNodes]
      rfl
    rw [keyView_setPhase, hview]
    exact .begin hjob
  | snapshot index now outcome => exact refines_snapshot h hs key
  | plan index now clock =>
    obtain ⟨task, ring, snapshots, htask, hphase, rfl⟩ := runBackground_plan hs
    have hjob := getElem?_jobs_keyView hashToInt key htask hphase
    obtain ⟨hnoTtl, -⟩ := h.rebalance htask
    rw [hphase] at hnoTtl
    have hids := h.coherent.map_nodeId_getAllNodes
    rw [keyView_setPhase]
    refine .plan hjob ?_
    change Plans _ _ c.manager.nodes.keys _ _
    rw [← hids]
    exact PlanInput.plans_plan (x := c.planInput task ring snapshots now clock)
      (hids ▸ c.manager.nodes.keys_nodup) fun nodeId entry => hnoTtl nodeId key entry
  | migrate index i clock outcome => exact refines_migrate h hroom hs key
  | cleanup nodeId now =>
    obtain rfl := Option.some.inj hs
    exact keyView_of_keeps (NodeTransport.keeps_cleanup h.noTtl.transport now nodeId)

/-! ### Rebalances that are done -/

theorem ended_view {key : String} {task : RebalanceTask V} (h : task.Done) :
    (task.view hashToInt key).Ended := by
  obtain ⟨ring, hphase⟩ := done_iff.mp h
  refine ⟨ring.ownerSet hashToInt key, ?_⟩
  rw [RebalanceTask.view, hphase, RebalancePhase.view, pendingWrites_nil]

/-- The jobs of rebalances that are done have ended. -/
theorem ended_of_done {key : String} (h : ∀ task ∈ c.rebalances, task.Done) (i : ℕ)
    (job : Job String (CacheEntry V)) (hjob : (c.keyView hashToInt key).jobs[i]? = some job) :
    job.Ended := by
  rw [keyView, List.getElem?_map] at hjob
  obtain ⟨task, htask, rfl⟩ := Option.map_eq_some_iff.mp hjob
  exact ended_view (h task (List.mem_of_getElem? htask))

end DistributedCacheCluster

end DistributedCache
