import DistributedCache.Cluster.Topology

/-!
# Growing the cluster while a member is down

A rebalance reads the snapshots of all members before it moves anything. A member that cannot be
reached raises there, and the rebalance ends: no copy is moved, but the ring has switched. A key
then is readable exactly if a live owner is an owner still. Where the hash does not collide, the
node that joins enters the pair of owners next to the old primary; so a key is lost to readers
when it got the new node as an owner and its old primary is the member that is down.

## Main definitions

* `DistributedCacheCluster.AtRestBut` : one member is down, all others answer.
* `DistributedCacheCluster.Stalled` : no rebalance gets past its snapshots.
* `DistributedCacheCluster.LiveOwnerStays` : a live owner of the key is an owner still.

## Main results

* `DistributedCacheCluster.Stalled.run` : while a member is down, rebalances change no copy.
* `DistributedCacheCluster.growth_keeps_readable_iff` : when a key stays readable.
* `DistributedCacheCluster.growth_loses_readable` : a key that does not.
-/

namespace DistributedCache

open Library

variable {V : Type*} {hashToInt : String → ℕ}

/-- The rebalance has not read the node: it has not begun, or has the node still to read; or it
has ended. -/
def RebalancePhase.Awaits (nodeId : String) : RebalancePhase V → Prop
  | .submitted => True
  | .collecting _ todo _ => nodeId ∈ todo.map NodeConfig.nodeId
  | .migrating _ pending => pending = []

namespace DistributedCacheCluster

/-- Calls to the member `down` raise, all other members answer, no entry has a lifetime, and
nothing is left to do in the background. -/
structure AtRestBut (hashToInt : String → ℕ) (ids : Set String) (down : String)
    (c : DistributedCacheCluster V) : Prop where
  manager : c.manager.Reachable hashToInt ids
  noTtl : c.transport.NoTtl
  member : down ∈ c.manager.nodes
  raises : ¬c.transport.Answers down
  answers : ∀ nodeId ∈ c.manager.nodes, nodeId ≠ down → c.transport.Answers nodeId
  quiescent : c.Quiescent

/-- All members but `down` are alive at all readings of the clock, and `down` at none. -/
def AllAliveBut (down : String) (c : DistributedCacheCluster V) (clock : Clock) : Prop :=
  ∀ nodeId ∈ c.manager.nodes, c.manager.AliveThroughout clock nodeId (decide (nodeId ≠ down))

/-- Since `c₁`, while the member `down` was down, no copy changed and no rebalance got past its
snapshots. -/
structure Stalled (down : String) (c₁ c : DistributedCacheCluster V) : Prop where
  manager : c.manager = c₁.manager
  keeps : c₁.transport.Keeps c.transport
  replicaWrites : c.replicaWrites = []
  awaits : ∀ task ∈ c.rebalances, task.phase.Awaits down

/-- When `node` has joined, an owner of the key that is not `down` is an owner still. -/
def LiveOwnerStays (hashToInt : String → ℕ) (down : String) (node : NodeConfig) (key : String)
    (c : DistributedCacheCluster V) : Prop :=
  ∃ x ∈ (c.manager.ring.addNode hashToInt node).owners hashToInt key, x.nodeId ≠ down ∧
    x.nodeId ∈ c.manager.ring.ownerIds hashToInt key

variable {c c₁ c' : DistributedCacheCluster V} {down : String}

/-- A step of the background loop while a member is down. -/
theorem Stalled.step (hcoherent : c₁.manager.Coherent hashToInt) (hmember : down ∈ c₁.manager.nodes)
    (hraises : ¬c₁.transport.Answers down) (httl : c₁.transport.NoTtl) (h : Stalled down c₁ c)
    {s : BackgroundStep} (hs : c.runBackground hashToInt s = some c') : Stalled down c₁ c' := by
  have httl' := httl.keeps h.keeps
  cases s with
  | replicate index clock outcome =>
    obtain ⟨w, hw, -⟩ := runBackground_replicate hs
    rw [h.replicaWrites] at hw
    cases hw
  | begin index =>
    obtain ⟨task, htask, hphase, rfl⟩ := runBackground_begin hs
    refine ⟨h.manager, h.keeps, h.replicaWrites, forall_setPhase h.awaits ?_⟩
    rw [RebalancePhase.Awaits, h.manager, hcoherent.map_nodeId_getAllNodes]
    exact hmember
  | snapshot index now outcome =>
    obtain ⟨task, ring, node, todo, snapshots, htask, hphase, hcase⟩ := runBackground_snapshot hs
    have hawaits := h.awaits task (List.mem_of_getElem? htask)
    rw [hphase] at hawaits
    rcases hcase with ⟨hsnap, rfl⟩ | ⟨entries, transport, hsnap, rfl⟩
    · exact ⟨h.manager, h.keeps, h.replicaWrites, forall_setPhase h.awaits rfl⟩
    · rcases NodeTransport.trySnapshot_eq httl' now outcome node with
        ⟨-, hanswers, entries', transport', heq, -, hkeeps⟩ | ⟨-, heq⟩
      · obtain ⟨-, rfl⟩ := Prod.mk.inj (Option.some.inj (hsnap.symm.trans heq))
        -- the node answered, so it is not the one that is down
        have hne : node.nodeId ≠ down := by
          rintro rfl
          exact hraises (h.keeps.toSameNodes.answers_iff.mp hanswers)
        refine ⟨h.manager, h.keeps.trans hkeeps, h.replicaWrites, forall_setPhase h.awaits ?_⟩
        exact (List.mem_cons.mp hawaits).resolve_left hne.symm
      · cases hsnap.symm.trans heq
  | plan index now clock =>
    obtain ⟨task, ring, snapshots, htask, hphase, -⟩ := runBackground_plan hs
    have hawaits := h.awaits task (List.mem_of_getElem? htask)
    rw [hphase] at hawaits
    cases hawaits
  | migrate index i clock outcome =>
    obtain ⟨task, ring, pending, call, htask, hphase, hcall, -⟩ := runBackground_migrate hs
    have hawaits := h.awaits task (List.mem_of_getElem? htask)
    rw [hphase] at hawaits
    obtain rfl : pending = [] := hawaits
    cases hcall
  | cleanup nodeId now =>
    obtain rfl := Option.some.inj hs
    exact ⟨h.manager, h.keeps.trans (NodeTransport.keeps_cleanup httl' now nodeId),
      h.replicaWrites, h.awaits⟩

/-- **While a member is down, rebalances change no copy.** -/
theorem Stalled.run (hcoherent : c₁.manager.Coherent hashToInt) (hmember : down ∈ c₁.manager.nodes)
    (hraises : ¬c₁.transport.Answers down) (httl : c₁.transport.NoTtl) (h : Stalled down c₁ c)
    {steps : List BackgroundStep}
    (hrun : Run (fun c s c' => c.runBackground hashToInt s = some c') c steps c') :
    Stalled down c₁ c' :=
  hrun.invariant (fun _ _ _ h hs => h.step hcoherent hmember hraises httl hs) h

variable {ids : Set String} {clock clock₀ clock' : Clock} {node : NodeConfig}
  {runtime : Option (NodeRuntime V)} {key : String}

/-- A node joins while a member is down. -/
theorem AtRestBut.stalled_run (h : c.AtRestBut hashToInt ids down)
    (hjoins : c.Joins clock node runtime) {steps : List BackgroundStep}
    (hrun : Run (fun c s c' => c.runBackground hashToInt s = some c')
      (c.serve hashToInt clock (.addNode node runtime)).2 steps c') :
    Stalled down (c.serve hashToInt clock (.addNode node runtime)).2 c' := by
  have hne : down ≠ node.nodeId := fun heq => hjoins.new (heq ▸ h.member)
  rw [addNode_eq hjoins.new] at hrun ⊢
  refine Stalled.run (h.manager.coherent.addNode _ node) ?_ ?_
    (hjoins.noTtl_registerNode h.noTtl) ⟨rfl, .refl _, h.quiescent.replicaWrites, ?_⟩ hrun
  · exact OrderedDict.mem_set.mpr (Or.inr h.member)
  · exact fun hanswers => h.raises ((NodeTransport.answers_registerNode_of_ne hne).mp hanswers)
  · intro task htask
    rcases List.mem_append.mp htask with hold | hnew
    · obtain ⟨ring, hphase⟩ := done_iff.mp (h.quiescent.rebalances task hold)
      rw [hphase]
      rfl
    · rw [List.mem_singleton.mp hnew]
      trivial

/-- All members but the one that is down answer after a node joined. -/
theorem AtRestBut.answers_registerNode (h : c.AtRestBut hashToInt ids down)
    (hjoins : c.Joins clock node runtime) {nodeId : String}
    (hn : nodeId = node.nodeId ∨ nodeId ∈ c.manager.nodes) (hne : nodeId ≠ down) :
    (c.transport.registerNode (clock 0) node runtime).Answers nodeId := by
  rcases hn with rfl | hold
  · exact hjoins.answers
  · have hnew : nodeId ≠ node.nodeId := fun heq => hjoins.new (heq ▸ hold)
    exact (NodeTransport.answers_registerNode_of_ne hnew).mpr (h.answers nodeId hold hne)

theorem mem_liveOwners_but_iff {x : NodeConfig} :
    x ∈ c.manager.liveOwners hashToInt (fun nodeId => decide (nodeId ≠ down)) key ↔
      x ∈ c.manager.ring.owners hashToInt key ∧ x.nodeId ≠ down := by
  rw [ClusterManager.liveOwners, List.mem_filter, decide_eq_true_iff]

/-- A get while a member is down, where the owners have at most one entry. -/
theorem get_found_but_iff (hcoherent : c.manager.Coherent hashToInt)
    (halive : c.AllAliveBut down clock) (httl : c.transport.NoTtl)
    (hanswers : ∀ nodeId ∈ c.manager.nodes, nodeId ≠ down → c.transport.Answers nodeId)
    {entry : CacheEntry V} (hagree : ∀ x ∈ c.manager.ring.owners hashToInt key,
      c.transport.lookup x.nodeId key = none ∨ c.transport.lookup x.nodeId key = some entry)
    {v : V} : (∃ r, (c.get hashToInt clock key).1 = some r ∧ r.value = some (some v)) ↔
      entry.value = some v ∧ ∃ x ∈ c.manager.ring.owners hashToInt key, x.nodeId ≠ down ∧
        c.transport.lookup x.nodeId key = some entry := by
  have hmem : ∀ x ∈ c.manager.ring.owners hashToInt key, x.nodeId ∈ c.manager.nodes :=
    fun x hx => hcoherent.mem_of_mem_ownerIds (ConsistentHashRing.mem_ownerIds_of_mem hashToInt hx)
  have hsteady : c.manager.Steady hashToInt clock (fun nodeId => decide (nodeId ≠ down)) key :=
    fun x hx => halive x.nodeId (hmem x hx)
  rw [get_found_iff hsteady (fun x hx => ?_) httl,
    exists_liveCopy_iff fun x hx => hagree x (mem_liveOwners_but_iff.mp hx).1]
  · simp only [mem_liveOwners_but_iff, and_assoc]
  · obtain ⟨howner, hne⟩ := mem_liveOwners_but_iff.mp hx
    exact hanswers _ (hmem x howner) hne

/-- Without collisions a live owner stays, unless the node that joined came next to the member
that is down. -/
theorem liveOwnerStays_iff (h : c.AtRestBut hashToInt ids down)
    (hcf : NoCollision hashToInt c.manager.ring.replicas ids) (hid : node.nodeId ∈ ids)
    (hnew : node.nodeId ∉ c.manager.nodes)
    (hlive : ∃ x ∈ c.manager.ring.owners hashToInt key, x.nodeId ≠ down) :
    c.LiveOwnerStays hashToInt down node key ↔
      ¬((c.manager.ring.ownerPair hashToInt key).1.map NodeConfig.nodeId = some down ∧
        node.nodeId ∈ (c.manager.ring.addNode hashToInt node).ownerIds hashToInt key) := by
  obtain ⟨p, q, hpair, hpair'⟩ := h.manager.ownerPair_addNode hcf h.member hnew hid key
  have hnode : node.nodeId ∉ c.manager.ring.ownerIds hashToInt key := fun hmem =>
    hnew (h.manager.coherent.mem_of_mem_ownerIds hmem)
  by_cases hsame : (c.manager.ring.addNode hashToInt node).ownerPair hashToInt key = (some p, q)
  · have howners : (c.manager.ring.addNode hashToInt node).owners hashToInt key =
        c.manager.ring.owners hashToInt key := by
      rw [ConsistentHashRing.owners, ConsistentHashRing.owners, hsame, hpair]
    have hids : (c.manager.ring.addNode hashToInt node).ownerIds hashToInt key =
        c.manager.ring.ownerIds hashToInt key := by
      rw [ConsistentHashRing.ownerIds, howners, ConsistentHashRing.ownerIds]
    rw [LiveOwnerStays, howners, hids]
    obtain ⟨x, hx, hne⟩ := hlive
    exact iff_of_true ⟨x, hx, hne, List.mem_map_of_mem hx⟩ fun hbad => hnode hbad.2
  · have hp : p ∈ c.manager.ring.owners hashToInt key :=
      (ConsistentHashRing.mem_owners hashToInt).mpr (Or.inl (by rw [hpair]))
    have hmem : ∀ x, x ∈ (c.manager.ring.addNode hashToInt node).owners hashToInt key ↔
        x = p ∨ x = node := by
      intro x
      rw [ConsistentHashRing.mem_owners]
      rcases hpair'.resolve_left hsame with heq | heq <;>
        simp [heq, eq_comm, or_comm]
    have hids : node.nodeId ∈ (c.manager.ring.addNode hashToInt node).ownerIds hashToInt key :=
      List.mem_map_of_mem ((hmem node).mpr (Or.inr rfl))
    rw [hpair, Option.map_some, Option.some.injEq]
    constructor
    · rintro ⟨x, hx, hne, hold⟩ ⟨rfl, -⟩
      rcases (hmem x).mp hx with rfl | rfl
      · exact hne rfl
      · exact hnode hold
    · intro hne
      exact ⟨p, (hmem p).mpr (Or.inl rfl), fun heq => hne ⟨heq, hids⟩, List.mem_map_of_mem hp⟩

/-- What a get meets at any moment of the rebalance: a coherent manager, no lifetimes, and members
that answer but for the one that is down. -/
theorem AtRestBut.meets (h : c.AtRestBut hashToInt ids down) (hid : node.nodeId ∈ ids)
    (hjoins : c.Joins clock node runtime)
    (hstalled : Stalled down (c.serve hashToInt clock (.addNode node runtime)).2 c') :
    c'.manager.Coherent hashToInt ∧ c'.transport.NoTtl ∧
      ∀ nodeId ∈ c'.manager.nodes, nodeId ≠ down → c'.transport.Answers nodeId := by
  have hcall : c.Rearranges ids clock (.addNode node runtime) := .addNode hid hjoins
  refine ⟨?_, NodeTransport.NoTtl.keeps ?_ hstalled.keeps, fun nodeId hn hne => ?_⟩
  · rw [hstalled.manager]
    exact (hcall.reachable h.manager).coherent
  · rw [addNode_eq hjoins.new]
    exact hjoins.noTtl_registerNode h.noTtl
  · rw [hstalled.keeps.toSameNodes.answers_iff, addNode_eq hjoins.new]
    rw [hstalled.manager, addNode_eq hjoins.new] at hn
    exact h.answers_registerNode hjoins (OrderedDict.mem_set.mp hn) hne

/-- **When a key stays readable as the cluster grows with a member down.** One member is down and
the key is held by exactly its owners; a get found `v`. Then a node joins without the key. At
every moment of the rebalance, and when it has ended, a get finds `v` exactly if a live owner of
the key is an owner still. Without collisions that is so unless the old primary of the key is the
member that is down and the node that joined is an owner now. -/
theorem growth_keeps_readable_iff (h : c.AtRestBut hashToInt ids down) {entry : CacheEntry V}
    (hplaced : c.Placed hashToInt key (some entry)) (halive : c.AllAliveBut down clock₀) {v : V}
    (hget : ∃ r, (c.get hashToInt clock₀ key).1 = some r ∧ r.value = some (some v))
    (hid : node.nodeId ∈ ids) (hjoins : c.Joins clock node runtime)
    (hwithout : c.JoinsWithout clock key (.addNode node runtime)) {steps : List BackgroundStep}
    (hrun : Run (fun c s c' => c.runBackground hashToInt s = some c')
      (c.serve hashToInt clock (.addNode node runtime)).2 steps c')
    (halive' : c'.AllAliveBut down clock') :
    ((∃ r, (c'.get hashToInt clock' key).1 = some r ∧ r.value = some (some v)) ↔
      c.LiveOwnerStays hashToInt down node key) ∧
    (NoCollision hashToInt c.manager.ring.replicas ids →
      (c.LiveOwnerStays hashToInt down node key ↔
        ¬((c.manager.ring.ownerPair hashToInt key).1.map NodeConfig.nodeId = some down ∧
          node.nodeId ∈ (c.manager.ring.addNode hashToInt node).ownerIds hashToInt key))) := by
  have hcall : c.Rearranges ids clock (.addNode node runtime) := .addNode hid hjoins
  have hcoherent := h.manager.coherent
  have hstalled := h.stalled_run hjoins hrun
  have hring : c'.manager.ring = c.manager.ring.addNode hashToInt node := by
    rw [hstalled.manager, addNode_eq hjoins.new]
    rfl
  obtain ⟨hcoherent', httl', hanswers'⟩ := h.meets hid hjoins hstalled
  have hlookup : ∀ x ∈ c.manager.ring.owners hashToInt key,
      c.transport.lookup x.nodeId key = some entry := by
    intro x hx
    have howner := ConsistentHashRing.mem_ownerIds_of_mem hashToInt hx
    rw [hplaced _ (hcoherent.mem_of_mem_ownerIds howner), if_pos howner]
  have hlookup' : ∀ x ∈ c'.manager.ring.owners hashToInt key,
      c'.transport.lookup x.nodeId key =
        if x.nodeId ∈ c.manager.ring.ownerIds hashToInt key then some entry else none := by
    intro x hx
    rw [hstalled.keeps.lookup]
    refine hcall.lookup_of_placed hcoherent hplaced hwithout ?_
    rw [← hstalled.manager]
    exact hcoherent'.mem_of_mem_ownerIds (ConsistentHashRing.mem_ownerIds_of_mem hashToInt hx)
  have hagree' : ∀ x ∈ c'.manager.ring.owners hashToInt key,
      c'.transport.lookup x.nodeId key = none ∨ c'.transport.lookup x.nodeId key = some entry := by
    intro x hx
    rw [hlookup' x hx]
    split_ifs
    · exact Or.inr rfl
    · exact Or.inl rfl
  obtain ⟨hvalue, x, hx, hne, -⟩ := (get_found_but_iff hcoherent halive h.noTtl h.answers
    fun x hx => Or.inr (hlookup x hx)).mp hget
  refine ⟨?_, fun hcf => liveOwnerStays_iff h hcf hid hjoins.new ⟨x, hx, hne⟩⟩
  rw [get_found_but_iff hcoherent' halive' httl' hanswers' hagree', LiveOwnerStays, ← hring]
  constructor
  · rintro ⟨-, y, hy, hne, hcopy⟩
    rw [hlookup' y hy] at hcopy
    split_ifs at hcopy with hold
    exact ⟨y, hy, hne, hold⟩
  · rintro ⟨y, hy, hne, hold⟩
    exact ⟨hvalue, y, hy, hne, by rw [hlookup' y hy, if_pos hold]⟩

/-! ### Two members, one of them down -/

/-- The nodes `"a"` and `"b"` hold `"k"`; at time 8 the node `other` is alive and `down` is down,
and the process of `"n"` runs with an empty store. -/
def sampleWithDown (down other : String) : DistributedCacheCluster ℕ :=
  { sampleHolding ["a", "b"] ["a", "b"] with
    manager := (sampleHolding ["a", "b"] ["a", "b"]).manager.recordHeartbeat 4 other
    transport :=
      { kind := .http
        runtimes := fun nodeId => if nodeId = "n" then some (sampleRuntime "n")
          else (sampleHolding ["a", "b"] ["a", "b"]).transport.runtimes nodeId
        reachable := fun nodeId => decide (nodeId ≠ down) } }

theorem sampleWithDown_lookup (down other nodeId key : String) :
    (sampleWithDown down other).transport.lookup nodeId key =
      if nodeId ∈ ["a", "b"] ∧ key = "k" then some (.plain 1) else none := by
  rw [← sampleHolding_lookup ["a", "b"]]
  change (if nodeId = "n" then some (sampleRuntime "n")
    else (sampleHolding ["a", "b"] ["a", "b"]).transport.runtimes nodeId).bind _ = _
  split_ifs with hn
  · rw [hn, sampleHolding_lookup, if_neg (by simp)]
    rfl
  · rfl

theorem sampleWithDown_atRestBut {down other : String} (hdown : down = "a" ∨ down = "b") :
    (sampleWithDown down other).AtRestBut sampleHash {"m", "n", "a", "b", "c"} down := by
  have hrest := sampleHolding_atRest ["a", "b"] ["a", "b"] (S := {"m", "n", "a", "b", "c"})
    (by simp)
  have hmem : ∀ nodeId, nodeId ∈ (sampleWithDown down other).manager.nodes ↔
      nodeId = "a" ∨ nodeId = "b" := by
    intro nodeId
    change nodeId ∈ ((sampleHolding ["a", "b"] ["a", "b"]).manager.recordHeartbeat 4 other).nodes ↔ _
    rw [ClusterManager.nodes_recordHeartbeat, OrderedDict.mem_def]
    have hkeys : (sampleHolding ["a", "b"] ["a", "b"]).manager.nodes.keys = ["a", "b"] := by
      decide +kernel
    rw [hkeys]
    simp
  refine ⟨.recordHeartbeat 4 other hrest.manager, fun nodeId key entry hentry => ?_,
    (hmem down).mpr hdown, fun hanswers => ?_, fun nodeId hn hne => ?_,
    ⟨rfl, fun task htask => by cases htask⟩⟩
  · rw [sampleWithDown_lookup] at hentry
    split_ifs at hentry
    rw [← Option.some.inj hentry]
    rfl
  · have hreach := (NodeTransport.answers_iff.mp hanswers).1
    exact of_decide_eq_true hreach rfl
  · refine NodeTransport.answers_iff.mpr ⟨decide_eq_true hne, ?_⟩
    rcases (hmem nodeId).mp hn with rfl | rfl <;> exact ⟨_, rfl⟩

theorem sampleWithDown_placed (down other : String) :
    (sampleWithDown down other).Placed sampleHash "k" (some (.plain 1)) := by
  intro nodeId _
  have howners : (sampleWithDown down other).manager.ring.ownerIds sampleHash "k" = ["a", "b"] := by
    change ((sampleHolding ["a", "b"] ["a", "b"]).manager.recordHeartbeat 4 other).ring.ownerIds
      sampleHash "k" = _
    rw [ClusterManager.ring_recordHeartbeat]
    decide +kernel
  rw [howners, sampleWithDown_lookup]
  simp

theorem allAliveBut_const {now : Time} (h : ∀ nodeId ∈ c.manager.nodes.keys,
    c.manager.isAlive now nodeId = decide (nodeId ≠ down)) : c.AllAliveBut down fun _ => now :=
  fun nodeId hn _ => h nodeId hn

/-- `growth_keeps_readable_iff` where the replica is down. -/
theorem growth_keeps_readable_iff_replica_down :
    let c := sampleWithDown "b" "a"
    ∃ c', Run (fun c s c' => c.runBackground sampleHash s = some c')
        (c.serve sampleHash (fun _ => 8) (.addNode (sampleNode "n") none)).2
        [.begin 0, .snapshot 0 8 .carriedOut, .snapshot 0 8 .carriedOut] c' ∧ c'.Quiescent ∧
      ∃ r, (c'.get sampleHash (fun _ => 8) "k").1 = some r ∧ r.value = some (some 1) := by
  intro c
  obtain ⟨c', hrun, hc'⟩ := exists_run sampleHash
    (c.serve sampleHash (fun _ => 8) (.addNode (sampleNode "n") none)).2
    [.begin 0, .snapshot 0 8 .carriedOut, .snapshot 0 8 .carriedOut]
    (fun c' => decide (c'.Quiescent ∧
      ∀ nodeId ∈ c'.manager.nodes.keys, c'.manager.isAlive 8 nodeId = decide (nodeId ≠ "b")))
    (by decide +kernel)
  obtain ⟨hquiescent, halive'⟩ := of_decide_eq_true hc'
  have hworks : Run (fun c s c' => c.runBackground sampleHash s = some c') _ _ c' :=
    hrun.mono fun _ _ _ hs => hs.2.2
  refine ⟨c', hworks, hquiescent, ?_⟩
  have halive : c.AllAliveBut "b" fun _ => 8 := allAliveBut_const (by decide +kernel)
  have hget : (c.get sampleHash (fun _ => 8) "k").1 =
      some { ok := true, statusCode := 200, value := some (some 1), servedBy := some "a" } := by
    decide +kernel
  have hempty : ∀ key, (c.transport.registerNode 8 (sampleNode "n") none).lookup "n" key = none :=
    fun key => (sampleWithDown_lookup "b" "a" "n" key).trans (if_neg (by simp))
  have hjoins : c.Joins (fun _ => 8) (sampleNode "n") none := by
    refine ⟨by decide +kernel, by decide +kernel, fun key entry hentry => ?_⟩
    cases (hempty key).symm.trans hentry
  have hprimary : (c.manager.ring.ownerPair sampleHash "k").1.map NodeConfig.nodeId ≠ some "b" := by
    decide +kernel
  have hreplicas : c.manager.ring.replicas = 1 := by decide +kernel
  have hcf : NoCollision sampleHash c.manager.ring.replicas {"m", "n", "a", "b", "c"} :=
    hreplicas ▸ sampleHash_noCollision
  obtain ⟨hreads, hstays⟩ := growth_keeps_readable_iff (sampleWithDown_atRestBut (Or.inr rfl))
    (sampleWithDown_placed "b" "a") halive ⟨_, hget, rfl⟩ (by simp [sampleNode]) hjoins
    (hempty "k") hworks (allAliveBut_const halive')
  exact hreads.mpr ((hstays hcf).mpr fun hbad => hprimary hbad.1)

/-- The primary is down: the node that joined is the new primary without a copy, and the node
that has one is no owner any more. -/
theorem growth_loses_readable :
    let c := sampleWithDown "a" "b"
    c.AtRestBut sampleHash {"m", "n", "a", "b", "c"} "a" ∧
      c.Placed sampleHash "k" (some (.plain 1)) ∧ c.AllAliveBut "a" (fun _ => 8) ∧
      (c.get sampleHash (fun _ => 8) "k").1 =
        some { ok := true, statusCode := 200, value := some (some 1), servedBy := some "b" } ∧
      ∃ c', Run (fun c s c' => c.runBackground sampleHash s = some c')
          (c.serve sampleHash (fun _ => 8) (.addNode (sampleNode "n") none)).2
          [.begin 0, .snapshot 0 8 .carriedOut] c' ∧ c'.Quiescent ∧
        c'.AllAliveBut "a" (fun _ => 8) ∧
        (c'.get sampleHash (fun _ => 8) "k").1 =
          some { ok := false, statusCode := 404, message := some "not found" } := by
  intro c
  refine ⟨sampleWithDown_atRestBut (Or.inl rfl), sampleWithDown_placed "a" "b",
    allAliveBut_const (by decide +kernel), by decide +kernel, ?_⟩
  obtain ⟨c', hrun, hc'⟩ := exists_run sampleHash
    (c.serve sampleHash (fun _ => 8) (.addNode (sampleNode "n") none)).2
    [.begin 0, .snapshot 0 8 .carriedOut]
    (fun c' => decide (c'.Quiescent ∧
      (∀ nodeId ∈ c'.manager.nodes.keys, c'.manager.isAlive 8 nodeId = decide (nodeId ≠ "a")) ∧
      (c'.get sampleHash (fun _ => 8) "k").1 =
        some { ok := false, statusCode := 404, message := some "not found" }))
    (by decide +kernel)
  obtain ⟨hquiescent, halive, hget⟩ := of_decide_eq_true hc'
  exact ⟨c', hrun.mono fun _ _ _ hs => hs.2.2, hquiescent, allAliveBut_const halive, hget⟩

end DistributedCacheCluster

end DistributedCache
