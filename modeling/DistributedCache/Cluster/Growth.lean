import DistributedCache.Cluster.Survival

/-!
# Growing the cluster

The rebalance after a node joined copies the entry of the old primary, where that has one, else
the entry of the old replica. The old primary stays an owner of the key and the node that joined
becomes the other one, so afterwards both owners hold what was copied. A get asks the old owners
in the same order, and answers as before with one exception: a get passes over a `null` that the
primary stores and answers the value of the replica, but the rebalance copies the `null`.

## Main definitions

* `DistributedCacheCluster.firstCopy` : the entry of the first owner that has one.
* `DistributedCacheCluster.NullHides` : the primary stores a `null`, and the replica a value.
* `DistributedCacheCluster.WorksAlive` : a step without failures, while all members are alive.
* `DistributedCacheCluster.Copying` : a rebalance at work that copies the entry of the primary.

## Main results

* `DistributedCacheCluster.Copying.run` : such a rebalance stores no other entry.
* `DistributedCacheCluster.growth_places` : after it exactly the new owners hold the key.
* `DistributedCacheCluster.growth_preserves_reads_iff` : when every read answers as before.
-/

namespace DistributedCache

open Library Library.Relocation

variable {V : Type*} {hashToInt : String → ℕ} {key : String}

/-! ### What the planner copies -/

/-- The change that a rebalance answers, and the ring from before it. -/
def RebalanceTask.origin (task : RebalanceTask V) : TopologyChange × ConsistentHashRing :=
  (task.change, task.previousRing)

/-- The readings of the clock that a planner makes for its liveness checks. -/
def BackgroundStep.planClock : BackgroundStep → Option (String → Clock)
  | .plan _ _ clock => some clock
  | _ => none

namespace PlanInput

variable {x : PlanInput V} {entry : CacheEntry V}

/-- After an addition the copy of the old primary is the source, if that node is alive. -/
theorem sourceAfterAdd_of_primary {p : NodeConfig} {q : Option NodeConfig}
    (hpair : x.previousRing.ownerPair hashToInt key = (some p, q))
    (halive : x.manager.isAlive (x.clock key 0) p.nodeId = true)
    (hseen : x.snapshots.seen key p.nodeId = some (some entry)) :
    x.sourceAfterAdd hashToInt key = some entry := by
  obtain ⟨entries, hget, hentry⟩ := seen_eq_some.mp hseen
  have hsource : x.sourceNodeIdForKey hashToInt key = some p.nodeId := by
    simp only [sourceNodeIdForKey, hpair, halive, if_true]
  rw [sourceAfterAdd, hsource, getEntrySnapshot_some, hget, Option.bind_some, hentry,
    Option.some_or]

/-- The puts that are scheduled for a key store the value of its source. -/
theorem value_of_mem_pendingWrites {change : TopologyChange}
    (hsource : x.source hashToInt change key = some entry) {w : Write String (CacheEntry V)}
    (hw : w ∈ pendingWrites key (x.plan hashToInt change)) {copy : CacheEntry V}
    (hcopy : w.value = some copy) : copy = ⟨entry.value, none⟩ := by
  obtain ⟨call, hcall, hwrite⟩ := hw
  cases call with
  | put node k value ttlSeconds =>
    rw [MigrationTask.write] at hwrite
    split_ifs at hwrite with hk
    obtain rfl := Option.some.inj hwrite
    obtain ⟨-, entry', nodeId, hm, rfl, -⟩ := put_mem_plan_iff.mp hcall
    rw [hk, migration] at hm
    split_ifs at hm
    rw [hsource, Option.bind_some] at hm
    obtain ⟨ttl, -, heq⟩ := Option.map_eq_some_iff.mp hm
    obtain rfl := (Prod.mk.inj heq).1
    exact (Option.some.inj hcopy).symm
  | delete node k =>
    rw [MigrationTask.write] at hwrite
    split_ifs at hwrite
    obtain rfl := Option.some.inj hwrite
    cases hcopy

end PlanInput

namespace DistributedCacheCluster

variable {c c' c₀ c₁ : DistributedCacheCluster V} {s : BackgroundStep} {entry : CacheEntry V}

theorem map_origin_setPhase {index : ℕ} {task : RebalanceTask V}
    (htask : c.rebalances[index]? = some task) (phase : RebalancePhase V) :
    (c.setPhase index task phase).rebalances.map RebalanceTask.origin =
      c.rebalances.map RebalanceTask.origin := by
  obtain ⟨hlt, rfl⟩ := List.getElem?_eq_some_iff.mp htask
  rw [setPhase, List.map_set]
  refine (congrArg _ ?_).trans (List.set_getElem_self (by rwa [List.length_map]))
  rw [List.getElem_map]
  rfl

/-- Rebalances keep the change that they answer and the ring from before it. -/
theorem map_origin_runBackground (h : c.runBackground hashToInt s = some c') :
    c'.rebalances.map RebalanceTask.origin = c.rebalances.map RebalanceTask.origin := by
  cases s with
  | replicate index clock outcome =>
    obtain ⟨w, -, rfl⟩ := runBackground_replicate h
    rfl
  | begin index =>
    obtain ⟨task, htask, -, rfl⟩ := runBackground_begin h
    exact map_origin_setPhase htask _
  | snapshot index now outcome =>
    obtain ⟨task, ring, node, todo, snapshots, htask, -, ⟨-, rfl⟩ | ⟨entries, transport, -, rfl⟩⟩ :=
      runBackground_snapshot h
    · exact map_origin_setPhase htask _
    · exact map_origin_setPhase htask _
  | plan index now clock =>
    obtain ⟨task, ring, snapshots, htask, -, rfl⟩ := runBackground_plan h
    exact map_origin_setPhase htask _
  | migrate index i clock outcome =>
    obtain ⟨task, ring, pending, call, htask, -, -, rfl⟩ := runBackground_migrate h
    exact map_origin_setPhase htask _
  | cleanup nodeId now =>
    obtain rfl := Option.some.inj h
    rfl

/-- Only a planner plans. -/
theorem plan_of_actionOf {i : ℕ} (h : c.actionOf key s = some (.plan i)) :
    ∃ now clock, s = .plan i now clock := by
  cases s with
  | replicate index clock outcome =>
    rw [actionOf] at h
    split_ifs at h
    obtain ⟨w, -, heq⟩ := Option.map_eq_some_iff.mp h
    cases heq
  | begin index => cases h
  | snapshot index now outcome =>
    rw [actionOf] at h
    split_ifs at h <;> cases h
  | plan index now clock =>
    cases h
    exact ⟨now, clock, rfl⟩
  | migrate index j clock outcome =>
    obtain ⟨w, -, heq⟩ := Option.map_eq_some_iff.mp h
    split_ifs at heq
  | cleanup nodeId now => cases h

/-- The background loop takes a step that does not fail, without evicting an entry; all members
are alive when a planner checks. -/
def WorksAlive (hashToInt : String → ℕ) (c : DistributedCacheCluster V) (s : BackgroundStep)
    (c' : DistributedCacheCluster V) : Prop :=
  c.WorksWell hashToInt s c' ∧ ∀ clock ∈ s.planClock, ∀ key, c.AllAlive (clock key)

/-- The rebalance of an addition is at work, alone and without failures; for the key it stores
nothing but the entry. -/
structure Copying (hashToInt : String → ℕ) (key : String) (entry : CacheEntry V)
    (c₀ c₁ c : DistributedCacheCluster V) : Prop where
  rebalancing : Rebalancing hashToInt True c₀ c₁ c
  origin : (c.rebalances.map RebalanceTask.origin)[c₀.rebalances.length]? =
    some (.add, c₀.manager.ring)
  storesOnly : ∀ job ∈ (c.keyView hashToInt key).jobs, job.StoresOnly entry
  copies : ∀ nodeId, c₁.transport.lookup nodeId key = none →
    c.transport.lookup nodeId key = none ∨ c.transport.lookup nodeId key = some entry

namespace Copying

variable {p : NodeConfig} {q : Option NodeConfig}

/-- The rebalance plans to store the entry that the old primary had at first. -/
theorem storesOnly_plan (h : Copying hashToInt key entry c₀ c₁ c)
    (hpair : c₀.manager.ring.ownerPair hashToInt key = (some p, q))
    (hp : p.nodeId ∈ c₁.manager.nodes) (hentry : c₁.transport.lookup p.nodeId key = some entry)
    (hexpires : entry.expiresAt = none) {index : ℕ} {now : Time} {clock : String → Clock}
    (hs : c.runBackground hashToInt (.plan index now clock) = some c')
    (halive : c.AllAlive (clock key)) {job : Job String (CacheEntry V)}
    (hjob : (c'.keyView hashToInt key).jobs[index]? = some job) : job.StoresOnly entry := by
  obtain ⟨task, ring, snapshots, htask, hphase, rfl⟩ := runBackground_plan hs
  obtain ⟨rfl, hseen⟩ := (h.rebalancing.lone key).seen_of_reading
    (getElem?_jobs_keyView hashToInt key htask hphase)
  have horigin := h.origin
  rw [List.getElem?_map, htask] at horigin
  obtain ⟨hchange, hring⟩ := Prod.mk.inj (Option.some.inj horigin)
  have hsource : (c.planInput task ring snapshots now clock).source hashToInt task.change key =
      some entry := by
    rw [hchange]
    refine PlanInput.sourceAfterAdd_of_primary (q := q) (hring ▸ hpair) ?_ ?_
    · exact halive p.nodeId (h.rebalancing.nodes ▸ hp) 0
    · exact (hseen p.nodeId hp).trans (congrArg some hentry)
  have hlt := (List.getElem?_eq_some_iff.mp htask).1
  rw [keyView, List.getElem?_map, setPhase, List.getElem?_set_self hlt] at hjob
  obtain rfl := Option.some.inj hjob
  intro goal pending heq w hw copy hcopy
  obtain ⟨-, rfl⟩ := Phase.writing.inj heq
  rw [PlanInput.value_of_mem_pendingWrites hsource hw hcopy, ← hexpires]

/-- One background step. -/
theorem step (h : Copying hashToInt key entry c₀ c₁ c)
    (hpair : c₀.manager.ring.ownerPair hashToInt key = (some p, q))
    (hp : p.nodeId ∈ c₁.manager.nodes) (hentry : c₁.transport.lookup p.nodeId key = some entry)
    (hexpires : entry.expiresAt = none) (hs : c.WorksAlive hashToInt s c') :
    Copying hashToInt key entry c₀ c₁ c' := by
  obtain ⟨⟨hsucceeds, hworks⟩, halive⟩ := hs
  have hrebalancing := h.rebalancing.step hworks fun _ => hsucceeds
  have horigin := map_origin_runBackground hworks.2
  have hrefines := refines_runBackground h.rebalancing.healthy hworks.1 hworks.2 key
  cases ha : c.actionOf key s with
  | none =>
    rw [ha] at hrefines
    have hview : c'.keyView hashToInt key = c.keyView hashToInt key := hrefines
    refine ⟨hrebalancing, horigin ▸ h.origin, hview ▸ h.storesOnly, fun nodeId hnone => ?_⟩
    have hlookup : c'.transport.lookup nodeId key = c.transport.lookup nodeId key :=
      congrFun (congrArg State.hold hview) nodeId
    rw [hlookup]
    exact h.copies nodeId hnone
  | some a =>
    rw [ha] at hrefines
    have hstep : Relocation.Step (c.keyView hashToInt key) a (c'.keyView hashToInt key) := hrefines
    have hofJob : a.OfJob := actionOf_ofJob (by simp [h.rebalancing.replicaWrites]) ha
    have hjoin : a ≠ .join := fun heq => by rw [heq] at hofJob; exact hofJob
    refine ⟨hrebalancing, horigin ▸ h.origin,
      hstep.storesOnly hjoin h.storesOnly fun i job heq hjob => ?_, fun nodeId hnone => ?_⟩
    · subst heq
      obtain ⟨now, clock, rfl⟩ := plan_of_actionOf ha
      exact h.storesOnly_plan hpair hp hentry hexpires hworks.2 (halive clock rfl key) hjob
    · rcases hstep.hold_of_storesOnly hofJob h.storesOnly nodeId with heq | hcopy
      · change c'.transport.lookup nodeId key = c.transport.lookup nodeId key at heq
        rw [heq]
        exact h.copies nodeId hnone
      · exact hcopy

/-- **The rebalance stores no other entry than that of the old primary.** -/
theorem run (h : Copying hashToInt key entry c₀ c₁ c)
    (hpair : c₀.manager.ring.ownerPair hashToInt key = (some p, q))
    (hp : p.nodeId ∈ c₁.manager.nodes) (hentry : c₁.transport.lookup p.nodeId key = some entry)
    (hexpires : entry.expiresAt = none) {steps : List BackgroundStep}
    (hrun : Run (WorksAlive hashToInt) c steps c') : Copying hashToInt key entry c₀ c₁ c' :=
  hrun.invariant (fun _ _ _ h hs => h.step hpair hp hentry hexpires hs) h

end Copying

/-! ### Where the copies end up -/

/-- The entry of the primary, where it has one, else that of the replica. -/
def firstCopy (hashToInt : String → ℕ) (c : DistributedCacheCluster V) (key : String) :
    Option (CacheEntry V) :=
  (c.manager.ring.owners hashToInt key).findSome? fun node => c.transport.lookup node.nodeId key

/-- The primary stores a `null`, and the replica a value. -/
def NullHides (hashToInt : String → ℕ) (c : DistributedCacheCluster V) (key : String) : Prop :=
  ∃ p q entry v, c.manager.ring.ownerPair hashToInt key = (some p, some q) ∧
    c.transport.lookup p.nodeId key = some entry ∧ entry.value = none ∧
    (c.transport.lookup q.nodeId key).bind CacheEntry.value = some v

/-- The answers to a get that found `a` and to one that found `b` are the same. -/
theorem same_getResponse_iff {a b : Option (String × V)} :
    ((getResponse b).statusCode = (getResponse a).statusCode ∧
      (getResponse b).value = (getResponse a).value) ↔ b.map Prod.snd = a.map Prod.snd := by
  cases a <;> cases b <;> simp [getResponse]

theorem reads_getResponse_iff {a : Option (String × V)} {value : Option V} :
    (getResponse a).Reads value ↔ a.map Prod.snd = value := by
  cases a <;> cases value <;> simp [getResponse, Response.Reads, Response.Is]

/-- A get finds nothing where no member holds the key. -/
theorem Healthy.liveCopy_of_unheld (h : c.Healthy hashToInt)
    (hnone : ∀ nodeId ∈ c.manager.nodes, c.transport.lookup nodeId key = none) :
    c.liveCopy hashToInt (fun _ => true) key = none :=
  liveCopy_eq_none fun _ hx =>
    hnone _ (h.mem_of_mem_owners (liveOwners_true hashToInt c.manager key ▸ hx))

/-- A get finds the value of the entry that all owners hold. -/
theorem Healthy.map_snd_liveCopy_of_placed (h : c.Healthy hashToInt)
    (hplaced : c.Placed hashToInt key (some entry))
    (howners : c.manager.ring.owners hashToInt key ≠ []) :
    (c.liveCopy hashToInt (fun _ => true) key).map Prod.snd = entry.value := by
  obtain ⟨x, hx⟩ := List.exists_mem_of_ne_nil _ howners
  have hentry : ∀ y ∈ c.manager.liveOwners hashToInt (fun _ => true) key,
      c.transport.lookup y.nodeId key = some entry := by
    intro y hy
    rw [liveOwners_true] at hy
    rw [hplaced _ (h.mem_of_mem_owners hy)]
    exact if_pos (ConsistentHashRing.mem_ownerIds_of_mem hashToInt hy)
  rw [← liveOwners_true] at hx
  exact map_snd_liveCopy hx (hentry x hx) fun y hy => Or.inr (hentry y hy)

section Pair

variable {p : NodeConfig} {q : Option NodeConfig}

theorem owners_of_pair (hpair : c.manager.ring.ownerPair hashToInt key = (some p, q)) :
    c.manager.ring.owners hashToInt key = p :: q.toList := by
  rw [ConsistentHashRing.owners, hpair]
  rfl

theorem firstCopy_of_pair (hpair : c.manager.ring.ownerPair hashToInt key = (some p, q)) :
    c.firstCopy hashToInt key = (c.transport.lookup p.nodeId key).or
      (q.bind fun q => c.transport.lookup q.nodeId key) := by
  rw [firstCopy, owners_of_pair hpair, List.findSome?_cons]
  cases c.transport.lookup p.nodeId key with
  | some entry => rfl
  | none =>
    cases q with
    | none => rfl
    | some q =>
      simp only [Option.toList_some, List.findSome?_cons, List.findSome?_nil, Option.none_or,
        Option.bind_some]
      cases c.transport.lookup q.nodeId key <;> rfl

/-- The value that a get finds, with the primary asked first. -/
theorem map_snd_liveCopy_of_pair
    (hpair : c.manager.ring.ownerPair hashToInt key = (some p, q)) :
    (c.liveCopy hashToInt (fun _ => true) key).map Prod.snd =
      ((c.transport.lookup p.nodeId key).bind CacheEntry.value).or
        (q.bind fun q => (c.transport.lookup q.nodeId key).bind CacheEntry.value) := by
  rw [liveCopy, liveOwners_true, owners_of_pair hpair, List.findSome?_cons]
  cases (c.transport.lookup p.nodeId key).bind CacheEntry.value with
  | some v => rfl
  | none =>
    cases q with
    | none => rfl
    | some q =>
      simp only [Option.toList_some, List.findSome?_cons, List.findSome?_nil, Option.map_none,
        Option.none_or, Option.bind_some]
      cases (c.transport.lookup q.nodeId key).bind CacheEntry.value <;> rfl

theorem nullHides_iff (hpair : c.manager.ring.ownerPair hashToInt key = (some p, q)) :
    c.NullHides hashToInt key ↔ ∃ entry, c.transport.lookup p.nodeId key = some entry ∧
      entry.value = none ∧
      (q.bind fun q => (c.transport.lookup q.nodeId key).bind CacheEntry.value) ≠ none := by
  rw [NullHides, hpair]
  constructor
  · rintro ⟨p', q', entry, v, heq, hentry, hnull, hv⟩
    obtain ⟨h₁, rfl⟩ := Prod.mk.inj heq
    obtain rfl := Option.some.inj h₁
    exact ⟨entry, hentry, hnull, by rw [Option.bind_some, hv]; simp⟩
  · rintro ⟨entry, hentry, hnull, hv⟩
    obtain ⟨v, hv⟩ := Option.ne_none_iff_exists'.mp hv
    obtain ⟨q', rfl, hv⟩ := Option.bind_eq_some_iff.mp hv
    exact ⟨p, q', entry, v, rfl, hentry, hnull, hv⟩

/-- A get finds the value of the first copy, unless that is a `null` which hides the value of the
replica. -/
theorem map_snd_liveCopy_iff (hpair : c.manager.ring.ownerPair hashToInt key = (some p, q))
    (hfirst : c.firstCopy hashToInt key = some entry) :
    (c.liveCopy hashToInt (fun _ => true) key).map Prod.snd = entry.value ↔
      ¬c.NullHides hashToInt key := by
  rw [firstCopy_of_pair hpair] at hfirst
  rw [map_snd_liveCopy_of_pair hpair, nullHides_iff hpair]
  cases hp : c.transport.lookup p.nodeId key with
  | none =>
    rw [hp, Option.none_or] at hfirst
    obtain ⟨q, rfl, hq⟩ := Option.bind_eq_some_iff.mp hfirst
    simp [hq]
  | some first =>
    rw [hp, Option.some_or] at hfirst
    obtain rfl := Option.some.inj hfirst
    cases hvalue : first.value <;> simp [hvalue]

end Pair

section Growth

variable {ids : Set String} {clock clock₀ clock' : Clock} {node : NodeConfig}
  {runtime : Option (NodeRuntime V)} {steps : List BackgroundStep}

/-- The owners of a key with a member: the old primary stays, and where the owners move the node
that joined is the other one. -/
theorem Joins.exists_ownerPair (hjoins : c.Joins clock node runtime)
    (hrest : c.AtRest hashToInt ids) (hcf : NoCollision hashToInt c.manager.ring.replicas ids)
    (hid : node.nodeId ∈ ids) {member : String} (hmember : member ∈ c.manager.nodes)
    (hc₁ : c₁ = (c.serve hashToInt clock (.addNode node runtime)).2) (key : String) :
    ∃ p q, c.manager.ring.ownerPair hashToInt key = (some p, q) ∧ p.nodeId ∈ c.manager.nodes ∧
      (OwnersMove hashToInt key c c₁ → ∀ nodeId, nodeId ∈ c₁.manager.ring.ownerIds hashToInt key ↔
        nodeId = p.nodeId ∨ nodeId = node.nodeId) ∧
      (¬OwnersMove hashToInt key c c₁ →
        c₁.manager.ring.ownerPair hashToInt key = (some p, q)) := by
  obtain ⟨p, q, hpair, hpair'⟩ :=
    hrest.manager.ownerPair_addNode hcf hmember hjoins.new hid key
  have hring : c₁.manager.ring = c.manager.ring.addNode hashToInt node := by
    rw [hc₁, addNode_eq hjoins.new]
    rfl
  rw [← hring] at hpair'
  have hp : p.nodeId ∈ c.manager.nodes := hrest.healthy.mem_of_mem_owners
    ((ConsistentHashRing.mem_owners hashToInt).mpr (Or.inl (by rw [hpair])))
  refine ⟨p, q, hpair, hp, fun hmoves nodeId => ?_, fun hstay => ?_⟩
  · rcases hpair' with heq | heq | heq
    · refine absurd ?_ hmoves.2.2
      rw [ConsistentHashRing.ownerSet, ConsistentHashRing.ownerSet, ConsistentHashRing.ownerIds,
        ConsistentHashRing.ownerIds, owners_of_pair hpair, owners_of_pair heq]
    · rw [ConsistentHashRing.ownerIds, owners_of_pair heq]
      simp [or_comm]
    · rw [ConsistentHashRing.ownerIds, owners_of_pair heq]
      simp
  · rcases hpair' with heq | heq
    · exact heq
    · refine absurd ?_ hstay
      have hnew : node.nodeId ∉ c.manager.ring.ownerIds hashToInt key := fun hmem =>
        hjoins.new (hrest.manager.coherent.mem_of_mem_ownerIds hmem)
      have hnode : node.nodeId ∈ c₁.manager.ring.ownerIds hashToInt key := by
        rcases heq with heq | heq <;>
          simp [ConsistentHashRing.ownerIds, owners_of_pair heq]
      refine ⟨?_, ⟨node.nodeId, ConsistentHashRing.mem_ownerSet.mpr hnode⟩, fun hsame => hnew ?_⟩
      · rw [ConsistentHashRing.ownerSet_nonempty, hpair]
        rfl
      · rw [← ConsistentHashRing.mem_ownerSet, hsame, ConsistentHashRing.mem_ownerSet]
        exact hnode

/-- After a node joined the new rebalance copies whatever the old primary has. -/
theorem AtRest.copying (hrest : c.AtRest hashToInt ids) (hid : node.nodeId ∈ ids)
    (hjoins : c.Joins clock node runtime) :
    Copying hashToInt key entry c (c.serve hashToInt clock (.addNode node runtime)).2
      (c.serve hashToInt clock (.addNode node runtime)).2 := by
  have hcall : c.Rearranges ids clock (.addNode node runtime) := .addNode hid hjoins
  have hrebalances : (c.serve hashToInt clock (.addNode node runtime)).2.rebalances =
      c.rebalances ++ [⟨.add, c.manager.ring, .submitted⟩] := by
    rw [addNode_eq hjoins.new]
    rfl
  refine ⟨(hcall.rearranged hrest).rebalancing, ?_, fun job hjob => ?_, fun nodeId => Or.inl⟩
  · rw [hrebalances, List.getElem?_map, List.getElem?_concat_length]
    rfl
  · rw [keyView, hrebalances] at hjob
    obtain ⟨task, htask, rfl⟩ := List.mem_map.mp hjob
    rcases List.mem_append.mp htask with hdone | hnew
    · exact (ended_view (hrest.quiescent.rebalances task hdone)).storesOnly entry
    · rw [List.mem_singleton.mp hnew]
      intro goal pending heq
      cases heq

/-- The members after a node joined without the key, and what they hold. -/
theorem Joins.lookup_serve (hjoins : c.Joins clock node runtime)
    (hwithout : c.JoinsWithout clock key (.addNode node runtime))
    (hcall : c.Rearranges ids clock (.addNode node runtime))
    (hc₁ : c₁ = (c.serve hashToInt clock (.addNode node runtime)).2) :
    (∀ n, n ∈ c₁.manager.nodes ↔ n = node.nodeId ∨ n ∈ c.manager.nodes) ∧
      c₁.transport.lookup node.nodeId key = none ∧
      ∀ n ∈ c.manager.nodes, c₁.transport.lookup n key = c.transport.lookup n key := by
  refine ⟨fun n => ?_, ?_, fun n hn => hc₁ ▸ hcall.lookup_of_mem hn key⟩
  · rw [hc₁, addNode_eq hjoins.new]
    exact OrderedDict.mem_set
  · rw [hc₁, addNode_eq hjoins.new]
    exact hwithout

theorem eq_of_lookup_primary {p : NodeConfig} {q : Option NodeConfig} {copy : CacheEntry V}
    (hpair : c.manager.ring.ownerPair hashToInt key = (some p, q))
    (hfirst : c.firstCopy hashToInt key = some entry)
    (hcopy : c.transport.lookup p.nodeId key = some copy) : copy = entry := by
  rw [firstCopy_of_pair hpair, hcopy, Option.some_or] at hfirst
  exact Option.some.inj hfirst

/-- The rebalance stores the first copy only: it is the entry of the old primary, or else the one
entry that there is. -/
theorem growth_copies (hrest : c.AtRest hashToInt ids)
    (hcf : NoCollision hashToInt c.manager.ring.replicas ids) {member : String}
    (hmember : member ∈ c.manager.nodes) (hheld : ∀ nodeId ∈ c.manager.nodes,
      nodeId ∉ c.manager.ring.ownerIds hashToInt key → c.transport.lookup nodeId key = none)
    (hid : node.nodeId ∈ ids) (hjoins : c.Joins clock node runtime)
    (hwithout : c.JoinsWithout clock key (.addNode node runtime))
    (hc₁ : c₁ = (c.serve hashToInt clock (.addNode node runtime)).2)
    (hrun : Run (WorksAlive hashToInt) c₁ steps c')
    (hfirst : c.firstCopy hashToInt key = some entry) {n : String} (hn : n ∈ c₁.manager.nodes)
    (hnone : c₁.transport.lookup n key = none) :
    c'.transport.lookup n key = none ∨ c'.transport.lookup n key = some entry := by
  have hcall : c.Rearranges ids clock (.addNode node runtime) := .addNode hid hjoins
  obtain ⟨p, q, hpair, hp, -⟩ := hjoins.exists_ownerPair hrest hcf hid hmember hc₁ key
  obtain ⟨hmem, hnode, hold⟩ := hjoins.lookup_serve hwithout hcall hc₁
  cases hcopy : c.transport.lookup p.nodeId key with
  | some copy =>
    have hcopying : Copying hashToInt key copy c c₁ c₁ := hc₁ ▸ hrest.copying hid hjoins
    obtain rfl := eq_of_lookup_primary hpair hfirst hcopy
    exact (hcopying.run hpair ((hmem _).mpr (Or.inr hp)) ((hold _ hp).trans hcopy)
      (hrest.noTtl _ _ _ hcopy) hrun).copies n hnone
  | none =>
    -- only the old replica has a copy
    subst hc₁
    have hrebalancing := (hcall.rearranged hrest).rebalancing.runWell
      (hrun.mono fun _ _ _ hs => hs.1)
    rw [firstCopy_of_pair hpair, hcopy, Option.none_or] at hfirst
    obtain ⟨x, rfl, hx⟩ := Option.bind_eq_some_iff.mp hfirst
    refine hrebalancing.agree (fun m hm => ?_) hn
    rcases (hmem m).mp hm with rfl | hm
    · exact Or.inl hnode
    · rw [hold m hm]
      by_cases howner : m ∈ c.manager.ring.ownerIds hashToInt key
      · rw [ConsistentHashRing.ownerIds, owners_of_pair hpair] at howner
        rcases List.mem_pair.mp howner with rfl | rfl
        · exact Or.inl hcopy
        · exact Or.inr hx
      · exact Or.inl (hheld m hm howner)

/-- **A rebalance after a node joined heals the copies.** Where the owners of a key move and only
old owners held it, exactly the new owners hold it in the end, all with the entry of the old
primary or, where that had none, of the old replica. -/
theorem growth_places (hrest : c.AtRest hashToInt ids)
    (hcf : NoCollision hashToInt c.manager.ring.replicas ids) {member : String}
    (hmember : member ∈ c.manager.nodes) (hheld : ∀ nodeId ∈ c.manager.nodes,
      nodeId ∉ c.manager.ring.ownerIds hashToInt key → c.transport.lookup nodeId key = none)
    (hid : node.nodeId ∈ ids) (hjoins : c.Joins clock node runtime)
    (hwithout : c.JoinsWithout clock key (.addNode node runtime))
    (hrun : Run (WorksAlive hashToInt) (c.serve hashToInt clock (.addNode node runtime)).2 steps c')
    (hquiescent : c'.Quiescent)
    (hmoves : OwnersMove hashToInt key c (c.serve hashToInt clock (.addNode node runtime)).2)
    (hfirst : c.firstCopy hashToInt key = some entry) : c'.Placed hashToInt key (some entry) := by
  have hcall : c.Rearranges ids clock (.addNode node runtime) := .addNode hid hjoins
  have hrebalancing := (hcall.rearranged hrest).rebalancing.runWell
    (hrun.mono fun _ _ _ hs => hs.1)
  obtain ⟨c₁, hc₁⟩ : ∃ c₁, c₁ = (c.serve hashToInt clock (.addNode node runtime)).2 := ⟨_, rfl⟩
  obtain ⟨p, q, hpair, hp, hgoal, -⟩ := hjoins.exists_ownerPair hrest hcf hid hmember hc₁ key
  obtain ⟨hmem, hnode, hold⟩ := hjoins.lookup_serve hwithout hcall hc₁
  rw [← hc₁] at hrun hmoves hrebalancing
  intro n hn
  rw [hrebalancing.nodes] at hn
  simp only [hrebalancing.ring, ← ConsistentHashRing.mem_ownerSet]
  refine (hrebalancing.lone key).settled_of_copies trivial
    (ended_of_done hquiescent.rebalances _) hmoves ?_ (fun m hm hmem' => ?_)
    (fun m hm hnone => growth_copies hrest hcf hmember hheld hid hjoins hwithout hc₁ hrun hfirst
      hm hnone) hn
  · obtain ⟨x, hx, hcopy⟩ := List.exists_of_findSome?_eq_some hfirst
    have hx' := hrest.healthy.mem_of_mem_owners hx
    exact ⟨x.nodeId, (hmem _).mpr (Or.inr hx'), by rw [hold _ hx', hcopy]; simp⟩
  · rcases (hgoal hmoves m).mp (ConsistentHashRing.mem_ownerSet.mp hmem') with rfl | rfl
    · rw [hold _ hp]
      cases hcopy : c.transport.lookup p.nodeId key with
      | none => exact Or.inl rfl
      | some copy => exact Or.inr (congrArg some (eq_of_lookup_primary hpair hfirst hcopy))
    · exact Or.inl hnode

/-- A key that no owner holds is held by nobody after the rebalance. -/
theorem growth_places_nothing (hrest : c.AtRest hashToInt ids) (hheld : ∀ nodeId ∈ c.manager.nodes,
      nodeId ∉ c.manager.ring.ownerIds hashToInt key → c.transport.lookup nodeId key = none)
    (hid : node.nodeId ∈ ids) (hjoins : c.Joins clock node runtime)
    (hwithout : c.JoinsWithout clock key (.addNode node runtime))
    (hrun : Run (WorksAlive hashToInt) (c.serve hashToInt clock (.addNode node runtime)).2 steps c')
    (hquiescent : c'.Quiescent) (hfirst : c.firstCopy hashToInt key = none) :
    (∀ nodeId ∈ c.manager.nodes, c.transport.lookup nodeId key = none) ∧
      ∀ nodeId ∈ c'.manager.nodes, c'.transport.lookup nodeId key = none := by
  have hcall : c.Rearranges ids clock (.addNode node runtime) := .addNode hid hjoins
  have hnone : ∀ n ∈ c.manager.nodes, c.transport.lookup n key = none := by
    intro n hn
    by_cases howner : n ∈ c.manager.ring.ownerIds hashToInt key
    · obtain ⟨x, hx, rfl⟩ := (ConsistentHashRing.mem_ownerIds hashToInt).mp howner
      exact List.findSome?_eq_none_iff.mp hfirst x hx
    · exact hheld n hn howner
  have hplaced : c'.Placed hashToInt key none :=
    ((hcall.rearranged hrest).rebalancing.runWell (hrun.mono fun _ _ _ hs => hs.1)).placed
      hquiescent (fun n hn => Or.inl ?_) (fun h => absurd rfl h) fun h => absurd rfl h
  · exact ⟨hnone, fun n hn => (hplaced n hn).trans (ite_self _)⟩
  · exact hcall.lookup_of_placed hrest.manager.coherent
      (fun n hn => (hnone n hn).trans (ite_self _).symm) hwithout hn

/-- Where the owners of a key stay, a get finds the value that it found before. -/
theorem growth_keeps_value (hrest : c.AtRest hashToInt ids)
    (hcf : NoCollision hashToInt c.manager.ring.replicas ids) {member : String}
    (hmember : member ∈ c.manager.nodes) (hid : node.nodeId ∈ ids)
    (hjoins : c.Joins clock node runtime)
    (hrun : Run (WorksAlive hashToInt) (c.serve hashToInt clock (.addNode node runtime)).2 steps c')
    (hstay : ¬OwnersMove hashToInt key c (c.serve hashToInt clock (.addNode node runtime)).2) :
    (c'.liveCopy hashToInt (fun _ => true) key).map Prod.snd =
      (c.liveCopy hashToInt (fun _ => true) key).map Prod.snd := by
  have hcall : c.Rearranges ids clock (.addNode node runtime) := .addNode hid hjoins
  have hrebalancing := (hcall.rearranged hrest).rebalancing.runWell
    (hrun.mono fun _ _ _ hs => hs.1)
  obtain ⟨p, q, hpair, hp, -, hsame⟩ := hjoins.exists_ownerPair hrest hcf hid hmember rfl key
  have hpair' : c'.manager.ring.ownerPair hashToInt key = (some p, q) := by
    rw [hrebalancing.ring]
    exact hsame hstay
  have hlookup : ∀ n ∈ c.manager.nodes,
      c'.transport.lookup n key = c.transport.lookup n key := fun n hn =>
    (congrFun ((hrebalancing.lone key).hold_eq fun h => absurd h hstay) n).trans
      (hcall.lookup_of_mem hn key)
  rw [map_snd_liveCopy_of_pair hpair, map_snd_liveCopy_of_pair hpair', hlookup _ hp]
  cases q with
  | none => rfl
  | some q =>
    have hq : q ∈ c.manager.ring.owners hashToInt key := by rw [owners_of_pair hpair]; simp
    rw [Option.bind_some, Option.bind_some, hlookup _ (hrest.healthy.mem_of_mem_owners hq)]

/-- After a node joined every key has an owner. -/
theorem owners_addNode_ne_nil (r : ConsistentHashRing) (node : NodeConfig) (key : String) :
    (r.addNode hashToInt node).owners hashToInt key ≠ [] := by
  obtain ⟨target, htarget⟩ := Option.isSome_iff_exists.mp
    (ConsistentHashRing.isSome_fst_ownerPair_addNode r node key)
  exact List.ne_nil_of_mem ((ConsistentHashRing.mem_owners hashToInt).mpr (Or.inl htarget))

/-- Without members a get answers 503. -/
theorem AtRest.get_of_no_member (hrest : c.AtRest hashToInt ids) (halive : c.AllAlive clock₀)
    (hnone : ¬∃ member, member ∈ c.manager.nodes) :
    (c.get hashToInt clock₀ key).1 = some noLiveNodes := by
  have hnil : c.manager.ring.owners hashToInt key = [] := List.eq_nil_iff_forall_not_mem.mpr
    fun x hx => hnone ⟨x.nodeId, hrest.healthy.mem_of_mem_owners hx⟩
  rw [get_unavailable (hrest.healthy.steady halive key)
    ((liveOwners_true hashToInt c.manager key).trans hnil)]

/-- **When growing the cluster preserves a read and heals the copies.** All members are alive and
only the owners of a key hold it; then a node joins without the key, and its rebalance finishes
without failures. A get answers as before, and where the owners moved and some member held the
key exactly the new owners hold it, all with the value that was answered, if and only if there
was a member before and the owners stay or the primary has no `null` that hides a value of the
replica. -/
theorem growth_preserves_reads_iff (hrest : c.AtRest hashToInt ids)
    (hcf : NoCollision hashToInt c.manager.ring.replicas ids) (hheld : ∀ nodeId ∈ c.manager.nodes,
      nodeId ∉ c.manager.ring.ownerIds hashToInt key → c.transport.lookup nodeId key = none)
    (halive : c.AllAlive clock₀) (hid : node.nodeId ∈ ids) (hjoins : c.Joins clock node runtime)
    (hwithout : c.JoinsWithout clock key (.addNode node runtime))
    (hrun : Run (WorksAlive hashToInt) (c.serve hashToInt clock (.addNode node runtime)).2 steps c')
    (hquiescent : c'.Quiescent) (halive' : c'.AllAlive clock') :
    (∃ r r', (c.get hashToInt clock₀ key).1 = some r ∧ (c'.get hashToInt clock' key).1 = some r' ∧
      (r'.statusCode = r.statusCode ∧ r'.value = r.value) ∧
      (OwnersMove hashToInt key c (c.serve hashToInt clock (.addNode node runtime)).2 →
        (∃ nodeId ∈ c.manager.nodes, c.transport.lookup nodeId key ≠ none) →
        ∃ entry, c'.Placed hashToInt key (some entry) ∧ r.Reads entry.value)) ↔
    (∃ member, member ∈ c.manager.nodes) ∧
      ¬(OwnersMove hashToInt key c (c.serve hashToInt clock (.addNode node runtime)).2 ∧
        c.NullHides hashToInt key) := by
  have hcall : c.Rearranges ids clock (.addNode node runtime) := .addNode hid hjoins
  have hrebalancing := (hcall.rearranged hrest).rebalancing.runWell
    (hrun.mono fun _ _ _ hs => hs.1)
  have hring : c'.manager.ring = c.manager.ring.addNode hashToInt node := by
    rw [hrebalancing.ring, addNode_eq hjoins.new]
    rfl
  have howners : c'.manager.ring.owners hashToInt key ≠ [] :=
    hring ▸ owners_addNode_ne_nil c.manager.ring node key
  have hget' := hrebalancing.healthy.get_response halive' howners
  rw [hget']
  by_cases hex : ∃ member, member ∈ c.manager.nodes
  · obtain ⟨member, hmember⟩ := id hex
    obtain ⟨p, q, hpair, hp, -⟩ := hjoins.exists_ownerPair hrest hcf hid hmember rfl key
    have hold : c.manager.ring.owners hashToInt key ≠ [] := by
      rw [owners_of_pair hpair]
      simp
    have hget := hrest.healthy.get_response halive hold
    rw [hget]
    simp only [Option.some.injEq, exists_and_left, exists_eq_left', same_getResponse_iff,
      reads_getResponse_iff]
    rw [and_iff_right hex]
    by_cases hmoves : OwnersMove hashToInt key c
        (c.serve hashToInt clock (.addNode node runtime)).2
    · cases hfirst : c.firstCopy hashToInt key with
      | none =>
        obtain ⟨hnone, hnone'⟩ :=
          growth_places_nothing hrest hheld hid hjoins hwithout hrun hquiescent hfirst
        rw [hrest.healthy.liveCopy_of_unheld hnone, hrebalancing.healthy.liveCopy_of_unheld hnone']
        refine iff_of_true ⟨rfl, ?_⟩ ?_
        · rintro - ⟨n, hn, hheld'⟩
          exact absurd (hnone n hn) hheld'
        · rintro ⟨-, hhides⟩
          obtain ⟨entry, hentry, -⟩ := (nullHides_iff hpair).mp hhides
          rw [hnone _ hp] at hentry
          cases hentry
      | some entry =>
        have hplaced := growth_places hrest hcf hmember hheld hid hjoins hwithout hrun hquiescent
          hmoves hfirst
        rw [hrebalancing.healthy.map_snd_liveCopy_of_placed hplaced howners]
        constructor
        · rintro ⟨heq, -⟩ ⟨-, hhides⟩
          exact (map_snd_liveCopy_iff hpair hfirst).mp heq.symm hhides
        · intro hshown
          have heq := (map_snd_liveCopy_iff hpair hfirst).mpr fun hhides => hshown ⟨hmoves, hhides⟩
          exact ⟨heq.symm, fun _ _ => ⟨entry, hplaced, heq⟩⟩
    · rw [growth_keeps_value hrest hcf hmember hid hjoins hrun hmoves]
      exact iff_of_true ⟨rfl, fun h => absurd h hmoves⟩ fun h => hmoves h.1
  · rw [hrest.get_of_no_member halive hex]
    refine iff_of_false ?_ fun h => hex h.1
    rintro ⟨r, r', hr, hr', ⟨hcode, -⟩, -⟩
    obtain rfl := Option.some.inj hr
    obtain rfl := Option.some.inj hr'
    cases hcopy : c'.liveCopy hashToInt (fun _ => true) key <;>
      simp [hcopy, getResponse, noLiveNodes] at hcode

end Growth

/-! ### Owners with different values -/

/-- The nodes `"a"` and `"b"`, which store the values `v` and `w` for `"k"`. -/
def sampleDiffering (v w : Option ℕ) : DistributedCacheCluster ℕ :=
  { sampleCluster ["a", "b"] with
    transport := { (sampleCluster ["a", "b"]).transport with
      runtimes := fun nodeId =>
        if nodeId = "a" then some ((sampleRuntime "a").putLocal (fun _ => 0) "k" v none).2
        else if nodeId = "b" then some ((sampleRuntime "b").putLocal (fun _ => 0) "k" w none).2
        else none } }

theorem sampleDiffering_lookup (v w : Option ℕ) (nodeId key : String) :
    (sampleDiffering v w).transport.lookup nodeId key =
      if key = "k" then
        if nodeId = "a" then some ⟨v, none⟩ else if nodeId = "b" then some ⟨w, none⟩ else none
      else none := by
  have hput : ∀ (id : String) (value : Option ℕ),
      ((sampleRuntime id).putLocal (fun _ => 0) "k" value none).2.store.entries.get? key =
        if key = "k" then some ⟨value, none⟩ else none := by
    intro id value
    have hroom : (sampleRuntime id).store.HasRoom "k" := show 0 < 1024 by decide
    exact CacheStore.get?_entries_put_none hroom 0 value key
  change (if nodeId = "a" then some ((sampleRuntime "a").putLocal (fun _ => 0) "k" v none).2
    else if nodeId = "b" then some ((sampleRuntime "b").putLocal (fun _ => 0) "k" w none).2
    else none).bind _ = _
  split_ifs <;> simp_all

theorem sampleDiffering_atRest (v w : Option ℕ) :
    (sampleDiffering v w).AtRest sampleHash {"m", "n", "a", "b", "c"} where
  manager := (sampleHolding_atRest ["a", "b"] [] (by simp)).manager
  noTtl nodeId key entry hentry := by
    rw [sampleDiffering_lookup] at hentry
    split_ifs at hentry <;> rw [← Option.some.inj hentry]
  answers nodeId hn := by
    have hkeys : (sampleCluster ["a", "b"]).manager.nodes.keys = ["a", "b"] := by decide +kernel
    have hmem : nodeId ∈ (sampleCluster ["a", "b"]).manager.nodes.keys := hn
    rw [hkeys] at hmem
    rcases List.mem_pair.mp hmem with rfl | rfl <;>
      exact NodeTransport.answers_iff.mpr ⟨rfl, _, rfl⟩
  quiescent := ⟨rfl, fun task htask => by cases htask⟩

theorem sampleDiffering_unheld (v w : Option ℕ) {nodeId : String}
    (h : nodeId ∉ (sampleDiffering v w).manager.ring.ownerIds sampleHash "k") :
    (sampleDiffering v w).transport.lookup nodeId "k" = none := by
  have howners : (sampleDiffering v w).manager.ring.ownerIds sampleHash "k" = ["a", "b"] := by
    change (sampleCluster ["a", "b"]).manager.ring.ownerIds sampleHash "k" = _
    decide +kernel
  rw [howners] at h
  rw [sampleDiffering_lookup]
  simp_all

theorem sampleDiffering_joins (v w : Option ℕ) :
    (sampleDiffering v w).Joins (fun _ => 0) (sampleNode "n") none where
  new := by
    change "n" ∉ (sampleCluster ["a", "b"]).manager.nodes
    decide +kernel
  answers := NodeTransport.answers_iff.mpr ⟨rfl, _, rfl⟩
  noTtl key entry hentry := by cases hentry

/-- The rebalance after `"n"` joined `"a"` and `"b"`, in the order in which it was planned. -/
def sampleGrowth : List BackgroundStep :=
  [.begin 0, .snapshot 0 0 .carriedOut, .snapshot 0 0 .carriedOut, .snapshot 0 0 .carriedOut,
    .plan 0 0 fun _ _ => 0, .migrate 0 0 (fun _ => 0) .carriedOut,
    .migrate 0 0 (fun _ => 0) .carriedOut]

theorem exists_growth_run (c : DistributedCacheCluster ℕ) (p : DistributedCacheCluster ℕ → Bool)
    (h : (c.runAllWhere sampleHash (fun c _ => ∀ nodeId ∈ c.manager.nodes.keys,
      c.manager.isAlive 0 nodeId = true) sampleGrowth).any p = true) :
    ∃ c', Run (WorksAlive sampleHash) c sampleGrowth c' ∧ p c' = true := by
  obtain ⟨c', hrun, hp⟩ := exists_run_where sampleHash _ c sampleGrowth p h
  refine ⟨c', hrun.mono_of_mem fun c s c' hs hstep => ⟨hstep.2, fun clock hclock key => ?_⟩, hp⟩
  have hconst : clock = fun _ _ => 0 := by
    simp only [sampleGrowth, List.mem_cons, List.not_mem_nil, or_false] at hs
    rcases hs with rfl | rfl | rfl | rfl | rfl | rfl | rfl <;> cases hclock
    rfl
  rw [hconst]
  exact allAlive_const hstep.1

/-- `growth_preserves_reads_iff` where the replica has an older value. -/
theorem growth_preserves_reads_iff_replica_stale :
    let c := sampleDiffering (some 1) (some 2)
    ∃ c', Run (WorksAlive sampleHash)
        (c.serve sampleHash (fun _ => 0) (.addNode (sampleNode "n") none)).2 sampleGrowth c' ∧
      c'.Quiescent ∧ ∃ r r', (c.get sampleHash (fun _ => 0) "k").1 = some r ∧
        (c'.get sampleHash (fun _ => 0) "k").1 = some r' ∧
        (r'.statusCode = r.statusCode ∧ r'.value = r.value) ∧
        (OwnersMove sampleHash "k" c
            (c.serve sampleHash (fun _ => 0) (.addNode (sampleNode "n") none)).2 →
          (∃ nodeId ∈ c.manager.nodes, c.transport.lookup nodeId "k" ≠ none) →
          ∃ entry, c'.Placed sampleHash "k" (some entry) ∧ r.Reads entry.value) := by
  intro c
  obtain ⟨c', hrun, hc'⟩ := exists_growth_run
    (c.serve sampleHash (fun _ => 0) (.addNode (sampleNode "n") none)).2
    (fun c' => decide (c'.Quiescent ∧
      ∀ nodeId ∈ c'.manager.nodes.keys, c'.manager.isAlive 0 nodeId = true))
    (by decide +kernel)
  obtain ⟨hquiescent, halive⟩ := of_decide_eq_true hc'
  refine ⟨c', hrun, hquiescent, ?_⟩
  refine (growth_preserves_reads_iff (sampleDiffering_atRest _ _) sampleHash_noCollision
    (fun nodeId _ => sampleDiffering_unheld _ _) (allAlive_const (by decide +kernel))
    (by simp [sampleNode]) (sampleDiffering_joins _ _) rfl hrun hquiescent
    (allAlive_const halive)).mpr ⟨⟨"a", by decide +kernel⟩, ?_⟩
  rintro ⟨-, p, q, entry, v, hpair, hentry, hnull, -⟩
  have hp : (c.manager.ring.ownerPair sampleHash "k").1.map NodeConfig.nodeId = some "a" := by
    decide +kernel
  rw [hpair] at hp
  have hnode : p.nodeId = "a" := Option.some.inj hp
  rw [hnode, sampleDiffering_lookup] at hentry
  obtain rfl := Option.some.inj hentry
  cases hnull

/-- The primary stores a `null` and the replica the value 1, which a get answers. After `"n"`
joined and its rebalance finished, a get reports the key as missing. -/
theorem growth_changes_read :
    let c := sampleDiffering none (some 1)
    c.AtRest sampleHash {"m", "n", "a", "b", "c"} ∧ c.AllAlive (fun _ => 0) ∧
      c.Joins (fun _ => 0) (sampleNode "n") none ∧
      (∀ nodeId, nodeId ∉ c.manager.ring.ownerIds sampleHash "k" →
        c.transport.lookup nodeId "k" = none) ∧
      (c.get sampleHash (fun _ => 0) "k").1 =
        some { ok := true, statusCode := 200, value := some (some 1), servedBy := some "b" } ∧
      ∃ c', Run (WorksAlive sampleHash)
          (c.serve sampleHash (fun _ => 0) (.addNode (sampleNode "n") none)).2 sampleGrowth c' ∧
        c'.Quiescent ∧ c'.AllAlive (fun _ => 0) ∧
        (c'.get sampleHash (fun _ => 0) "k").1 =
          some { ok := false, statusCode := 404, message := some "not found" } := by
  intro c
  obtain ⟨c', hrun, hc'⟩ := exists_growth_run
    (c.serve sampleHash (fun _ => 0) (.addNode (sampleNode "n") none)).2
    (fun c' => decide (c'.Quiescent ∧
      (∀ nodeId ∈ c'.manager.nodes.keys, c'.manager.isAlive 0 nodeId = true) ∧
      (c'.get sampleHash (fun _ => 0) "k").1 =
        some { ok := false, statusCode := 404, message := some "not found" }))
    (by decide +kernel)
  obtain ⟨hquiescent, halive, hget⟩ := of_decide_eq_true hc'
  exact ⟨sampleDiffering_atRest _ _, allAlive_const (by decide +kernel),
    sampleDiffering_joins _ _, fun nodeId => sampleDiffering_unheld _ _, by decide +kernel, c',
    hrun, hquiescent, allAlive_const halive, hget⟩

end DistributedCacheCluster

end DistributedCache
