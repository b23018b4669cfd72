import DistributedCache.Cluster.Copies
import DistributedCache.Cluster.KeyValueMap

/-!
# Lifetimes across machines

Over HTTP every process reads the clock of its own machine. The time at which an entry expires is
a reading of the clock of its node; a rebalance subtracts a reading of the clock of the gateway
from it, and the new owner adds one of its own. When every call is made at the same real time,
the lifetime that is left of a copy changes on the way by the difference between the clocks of
the old node and of the gateway, and a copy that has none left then is not moved.

## Main definitions

* `ClockOffsets` : by how much the clocks of the processes are off.
* `DistributedCacheCluster.Undelayed` : a background step that is made at a real time.
* `DistributedCacheCluster.sourceNode` : the node whose copy a rebalance takes.
* `DistributedCacheCluster.Handover` : a rebalance is to move a copy to a new owner.

## Main results

* `DistributedCacheCluster.Handover.run` : what the new owner can get.
* `DistributedCacheCluster.Handover.exists_arrival` : that it gets it, if lifetime is left.
* `DistributedCacheCluster.lifetime_survives_iff` : when the lifetime survives.
-/

namespace DistributedCache

open Library Library.Relocation

variable {V : Type*} {hashToInt : String → ℕ}

/-- The clock of a process reads the real time plus a constant of the machine it runs on. -/
structure ClockOffsets where
  gateway : Time
  node : String → Time

/-- The reading of the clock of a node at a real time. -/
def ClockOffsets.reading (o : ClockOffsets) (realTime : Time) (nodeId : String) : Time :=
  realTime + o.node nodeId

/-- The reading of the clock of the gateway. -/
def ClockOffsets.gatewayReading (o : ClockOffsets) (realTime : Time) : Time :=
  realTime + o.gateway

/-- The lifetime that is left of an entry at a reading. -/
def CacheEntry.remaining (entry : CacheEntry V) (now : Time) : Option Time :=
  entry.expiresAt.map fun expiresAt => expiresAt - now

/-! ### Which copy is the source -/

namespace PlanInput

variable {x : PlanInput V} {change : TopologyChange} {key : String}

/-- The nodes whose copy a planner prefers, before it looks through all snapshots. -/
def preferredIds (hashToInt : String → ℕ) (x : PlanInput V) (change : TopologyChange)
    (key : String) : List String :=
  match change with
  | .add => (x.sourceNodeIdForKey hashToInt key).toList
  | .remove => ((x.currentRing.ownerPair hashToInt key).1.map NodeConfig.nodeId).toList ++
      ((x.previousRing.ownerPair hashToInt key).2.map NodeConfig.nodeId).toList

theorem getEntrySnapshot_eq_findSome? (snapshots : Snapshots V) (key : String)
    (nodeId : Option String) : getEntrySnapshot snapshots key nodeId =
      nodeId.toList.findSome? fun id =>
        (snapshots.get? id).bind fun entries => entries.get? key := by
  cases nodeId with
  | none => rfl
  | some id =>
    rw [getEntrySnapshot_some, Option.toList_some, List.findSome?_cons, List.findSome?_nil]
    cases (snapshots.get? id).bind fun entries => entries.get? key <;> rfl

theorem getFirstEntrySnapshot_eq_findSome? (snapshots : Snapshots V) (key : String) :
    getFirstEntrySnapshot snapshots key = snapshots.keys.findSome? fun id =>
      (snapshots.get? id).bind fun entries => entries.get? key := by
  have hmap : ∀ (l : List (String × OrderedDict String (CacheEntry V)))
      (f : String × OrderedDict String (CacheEntry V) → Option (CacheEntry V)),
      l.findSome? f = (l.map f).findSome? id := fun l f => by rw [List.findSome?_map]; rfl
  rw [getFirstEntrySnapshot, OrderedDict.values, OrderedDict.keys, List.findSome?_map,
    List.findSome?_map, hmap, hmap snapshots.toList (_ ∘ Prod.fst)]
  refine congrArg _ (List.map_congr_left fun p hp => ?_)
  rw [Function.comp_apply, Function.comp_apply, OrderedDict.get?_eq_some_iff.mpr hp,
    Option.bind_some]

/-- A planner takes the first copy on the preferred nodes and then on all others. -/
theorem source_eq_findSome? : x.source hashToInt change key =
    (x.preferredIds hashToInt change key ++ x.snapshots.keys).findSome? fun id =>
      (x.snapshots.get? id).bind fun entries => entries.get? key := by
  cases change with
  | add =>
    rw [source, sourceAfterAdd, preferredIds, List.findSome?_append,
      getEntrySnapshot_eq_findSome?, getFirstEntrySnapshot_eq_findSome?]
  | remove =>
    rw [source, sourceAfterRemove, preferredIds, List.findSome?_append, List.findSome?_append,
      getEntrySnapshot_eq_findSome?, getEntrySnapshot_eq_findSome?,
      getFirstEntrySnapshot_eq_findSome?]

end PlanInput

theorem migratedTtl_some (expiresAt now : Time) : migratedTtl (some expiresAt) now =
    if 0 < expiresAt - now then some (some (expiresAt - now)) else none := by
  rw [migratedTtl]
  by_cases h : 0 < expiresAt - now
  · rw [if_pos h, max_eq_left h.le]
    exact if_neg (not_le.mpr h)
  · rw [if_neg h, max_eq_right (not_lt.mp h)]
    exact if_pos le_rfl

/-- The first element that has a result gives the first result. -/
theorem findSome?_of_find? {α β : Type*} {f : α → Option β} {l : List α} {a : α}
    (h : l.find? (fun a => (f a).isSome) = some a) : l.findSome? f = f a := by
  induction l with
  | nil => cases h
  | cons x l ih =>
    rw [List.find?_cons] at h
    rw [List.findSome?_cons]
    cases hx : f x with
    | none =>
      rw [hx] at h
      exact ih h
    | some b =>
      rw [hx] at h
      obtain rfl := Option.some.inj h
      exact hx.symm

namespace DistributedCacheCluster

/-! ### Background steps at one real time -/

/-- The node whose snapshot a rebalance reads next. -/
def nodeToRead (c : DistributedCacheCluster V) (index : ℕ) : Option NodeConfig :=
  c.rebalances[index]?.bind fun task =>
    match task.phase with
    | .collecting _ (node :: _) _ => some node
    | _ => none

/-- All clocks that the step reads are read at the real time. -/
def ReadsAt (o : ClockOffsets) (realTime : Time) (c : DistributedCacheCluster V) :
    BackgroundStep → Prop
  | .replicate index clock _ => ∀ w, c.replicaWrites[index]? = some w →
      ∀ i, clock i = o.reading realTime w.node.nodeId
  | .begin _ => True
  | .snapshot index now _ => ∀ node, c.nodeToRead index = some node →
      now = o.reading realTime node.nodeId
  | .plan _ now clock => now = o.gatewayReading realTime ∧
      ∀ key i, clock key i = o.gatewayReading realTime
  | .migrate index i clock _ => ∀ call, c.scheduledCall index i = some call →
      ∀ j, clock j = o.reading realTime call.nodeId
  | .cleanup nodeId now => now = o.reading realTime nodeId

/-- The background loop takes a step that does not fail, at the real time. -/
def Undelayed (hashToInt : String → ℕ) (o : ClockOffsets) (realTime : Time)
    (c : DistributedCacheCluster V) (s : BackgroundStep) (c' : DistributedCacheCluster V) : Prop :=
  s.Succeeds ∧ c.ReadsAt o realTime s ∧ c.runBackground hashToInt s = some c'

/-- The copy of a member that has not expired at the real time. -/
def copyAt (o : ClockOffsets) (realTime : Time) (c : DistributedCacheCluster V)
    (key nodeId : String) : Option (CacheEntry V) :=
  if nodeId ∈ c.manager.nodes then
    c.transport.unexpired (o.reading realTime nodeId) nodeId key
  else none

/-- What a planner reads at the real time, besides the snapshots. -/
def inputAt (o : ClockOffsets) (realTime : Time) (c : DistributedCacheCluster V)
    (task : RebalanceTask V) (snapshots : Snapshots V) : PlanInput V :=
  c.planInput task c.manager.ring snapshots (o.gatewayReading realTime)
    fun _ _ => o.gatewayReading realTime

/-- The nodes in the order in which a rebalance that runs at the real time tries them. -/
def sourceOrder (hashToInt : String → ℕ) (o : ClockOffsets) (realTime : Time)
    (c : DistributedCacheCluster V) (task : RebalanceTask V) (key : String) : List String :=
  (c.inputAt o realTime task .empty).preferredIds hashToInt task.change key ++
    c.manager.nodes.keys

/-- The node whose copy a rebalance takes that runs at the real time. -/
def sourceNode (hashToInt : String → ℕ) (o : ClockOffsets) (realTime : Time)
    (c : DistributedCacheCluster V) (task : RebalanceTask V) (key : String) : Option String :=
  (c.sourceOrder hashToInt o realTime task key).find? fun nodeId =>
    (c.copyAt o realTime key nodeId).isSome

/-- A rebalance has been submitted and is alone. It is to take the copy of `source`, which
expires at the reading `expiresAt` of the clock there, to the new owner `target`, which has
none. -/
structure Handover (hashToInt : String → ℕ) (o : ClockOffsets) (realTime : Time)
    (c : DistributedCacheCluster V) (index : ℕ) (task : RebalanceTask V)
    (key source target : String) (entry : CacheEntry V) (expiresAt : Time) : Prop where
  coherent : c.manager.Coherent hashToInt
  answers : ∀ nodeId ∈ c.manager.nodes, c.transport.Answers nodeId
  replicaWrites : c.replicaWrites = []
  others : ∀ j task', c.rebalances[j]? = some task' → j ≠ index → task'.Done
  rebalance : c.rebalances[index]? = some task
  submitted : task.phase = .submitted
  moves : Moves (task.previousRing.ownerSet hashToInt key) (c.manager.ring.ownerSet hashToInt key)
  isSource : c.sourceNode hashToInt o realTime task key = some source
  copy : c.copyAt o realTime key source = some entry
  expires : entry.expiresAt = some expiresAt
  isOwner : target ∈ c.manager.ring.ownerIds hashToInt key
  lacks : c.copyAt o realTime key target = none

variable {o : ClockOffsets} {realTime : Time} {c₁ c c' : DistributedCacheCluster V} {index : ℕ}
  {task : RebalanceTask V} {key source target : String} {entry : CacheEntry V} {expiresAt : Time}

theorem copyAt_congr (hmanager : c'.manager = c.manager)
    (h : ∀ n, c'.transport.unexpired (o.reading realTime n) n key =
      c.transport.unexpired (o.reading realTime n) n key) :
    c'.copyAt o realTime key = c.copyAt o realTime key := by
  funext n
  rw [copyAt, copyAt, hmanager, h]

/-! ### What is planned for the new owner -/

/-- The snapshots show the copies that had not expired at the real time. -/
theorem get?_snapshots {snapshots : Snapshots V} (hkeys : snapshots.keys = c₁.manager.nodes.keys)
    (hseen : ∀ n entries, snapshots.get? n = some entries →
      entries.get? key = c₁.copyAt o realTime key n) (n : String) :
    ((snapshots.get? n).bind fun entries => entries.get? key) = c₁.copyAt o realTime key n := by
  cases hget : snapshots.get? n with
  | some entries => exact hseen n entries hget
  | none =>
    have hnot : n ∉ c₁.manager.nodes := by
      rw [OrderedDict.mem_def, ← hkeys]
      exact OrderedDict.get?_eq_none_iff.mp hget
    exact (if_neg hnot).symm

namespace Handover

variable {snapshots : Snapshots V}

theorem migration_eq
    (h : Handover hashToInt o realTime c₁ index task key source target entry expiresAt)
    (hkeys : snapshots.keys = c₁.manager.nodes.keys)
    (hseen : ∀ n entries, snapshots.get? n = some entries →
      entries.get? key = c₁.copyAt o realTime key n) :
    (c₁.inputAt o realTime task snapshots).migration hashToInt task.change key =
      if 0 < expiresAt - o.gatewayReading realTime then
        some (entry, some (expiresAt - o.gatewayReading realTime))
      else none := by
  have hchange : (c₁.inputAt o realTime task snapshots).OwnersChange hashToInt key :=
    PlanInput.ownersChange_iff.mpr h.moves
  have hpreferred : (c₁.inputAt o realTime task snapshots).preferredIds hashToInt
      task.change key ++ snapshots.keys = c₁.sourceOrder hashToInt o realTime task key := by
    rw [hkeys]
    rfl
  have hsource : (c₁.inputAt o realTime task snapshots).source hashToInt task.change key =
      some entry := by
    rw [PlanInput.source_eq_findSome?]
    change List.findSome? (fun id => (snapshots.get? id).bind fun entries => entries.get? key)
      (PlanInput.preferredIds hashToInt _ task.change key ++ snapshots.keys) = _
    rw [hpreferred, funext (get?_snapshots hkeys hseen), findSome?_of_find? h.isSource, h.copy]
  rw [PlanInput.migration, if_pos hchange, hsource, Option.bind_some, h.expires]
  change (migratedTtl (some expiresAt) (o.gatewayReading realTime)).map _ = _
  rw [migratedTtl_some]
  split_ifs <;> rfl

/-- Nothing is planned for the key on the new owner but to put the value there, with the lifetime
that is left according to the clock of the gateway. -/
theorem eq_put_of_mem_plan
    (h : Handover hashToInt o realTime c₁ index task key source target entry expiresAt)
    (hkeys : snapshots.keys = c₁.manager.nodes.keys)
    (hseen : ∀ n entries, snapshots.get? n = some entries →
      entries.get? key = c₁.copyAt o realTime key n) {call : MigrationTask V}
    (hcall : call ∈ (c₁.inputAt o realTime task snapshots).plan hashToInt task.change)
    (hnode : call.nodeId = target) (hkey : call.key = key) :
    (∃ node, call = .put node key entry.value (some (expiresAt - o.gatewayReading realTime))) ∧
      0 < expiresAt - o.gatewayReading realTime := by
  cases call with
  | put node k value ttlSeconds =>
    obtain rfl : k = key := hkey
    obtain ⟨-, entry', nodeId, hm, rfl, -⟩ := PlanInput.put_mem_plan_iff.mp hcall
    rw [h.migration_eq hkeys hseen] at hm
    split_ifs at hm with hpos
    obtain ⟨rfl, rfl⟩ := Prod.mk.inj (Option.some.inj hm)
    exact ⟨⟨node, rfl⟩, hpos⟩
  | delete node k =>
    obtain rfl : k = key := hkey
    obtain ⟨-, nodeId, -, hnot, hget, -⟩ := PlanInput.delete_mem_plan_iff.mp hcall
    have hnodup : (c₁.manager.getAllNodes.map NodeConfig.nodeId).Nodup := by
      rw [h.coherent.map_nodeId_getAllNodes]
      exact c₁.manager.nodes.keys_nodup
    obtain ⟨-, rfl⟩ := (get?_nodesById hnodup).mp hget
    obtain rfl : node.nodeId = target := hnode
    exact absurd h.isOwner hnot

/-- The put to the new owner is planned, if lifetime is left according to the clock of the
gateway. -/
theorem exists_mem_plan
    (h : Handover hashToInt o realTime c₁ index task key source target entry expiresAt)
    (hkeys : snapshots.keys = c₁.manager.nodes.keys)
    (hseen : ∀ n entries, snapshots.get? n = some entries →
      entries.get? key = c₁.copyAt o realTime key n)
    (hpos : 0 < expiresAt - o.gatewayReading realTime) :
    ∃ call ∈ (c₁.inputAt o realTime task snapshots).plan hashToInt task.change,
      call.nodeId = target ∧ call.key = key := by
  have hids := h.coherent.map_nodeId_getAllNodes
  obtain ⟨node, hnode, htarget⟩ : ∃ node ∈ c₁.manager.getAllNodes, node.nodeId = target := by
    have hmem : target ∈ c₁.manager.getAllNodes.map NodeConfig.nodeId := by
      rw [hids]
      exact h.coherent.mem_of_mem_ownerIds h.isOwner
    exact List.mem_map.mp hmem
  have hsource := (get?_snapshots hkeys hseen source).trans h.copy
  obtain ⟨entries, hget, hentry⟩ := Option.bind_eq_some_iff.mp hsource
  refine ⟨.put node key entry.value (some (expiresAt - o.gatewayReading realTime)),
    PlanInput.put_mem_plan_iff.mpr ⟨mem_storedKeys.mpr ⟨source, entries, hget, ?_⟩, entry, target,
      ?_, rfl, h.isOwner, ?_, ?_⟩, htarget, rfl⟩
  · exact OrderedDict.mem_iff_exists_get?.mpr ⟨entry, hentry⟩
  · rw [h.migration_eq hkeys hseen, if_pos hpos]
  · have hnodup : (c₁.manager.getAllNodes.map NodeConfig.nodeId).Nodup := by
      rw [hids]
      exact c₁.manager.nodes.keys_nodup
    exact (get?_nodesById hnodup).mpr ⟨hnode, htarget⟩
  · rintro ⟨entries', hget', hmem⟩
    obtain ⟨entry', hentry'⟩ := OrderedDict.mem_iff_exists_get?.mp hmem
    have hcopy := hseen target entries' hget'
    rw [h.lacks, hentry'] at hcopy
    cases hcopy

end Handover

/-! ### The rebalance at work -/

/-- The copy that the new owner gets: it adds what the clock of the gateway left of the lifetime
to a reading of its own clock. -/
def movedCopy (o : ClockOffsets) (realTime : Time) (target : String) (entry : CacheEntry V)
    (expiresAt : Time) : CacheEntry V :=
  ⟨entry.value, some (o.reading realTime target + (expiresAt - o.gatewayReading realTime))⟩

/-- Where the rebalance stands, and what unexpired copies of the key there are. -/
def Stage (o : ClockOffsets) (realTime : Time) (c₁ : DistributedCacheCluster V)
    (key target : String) (entry : CacheEntry V) (expiresAt : Time)
    (copies : String → Option (CacheEntry V)) : RebalancePhase V → Prop
  | .submitted => copies = c₁.copyAt o realTime key
  | .collecting ring todo snapshots =>
    copies = c₁.copyAt o realTime key ∧ ring = c₁.manager.ring ∧
      snapshots.keys ++ todo.map NodeConfig.nodeId = c₁.manager.nodes.keys ∧
      ∀ n entries, snapshots.get? n = some entries →
        entries.get? key = c₁.copyAt o realTime key n
  | .migrating _ pending =>
    (∀ call ∈ pending, call.nodeId = target → call.key = key →
      (∃ node, call = .put node key entry.value
        (some (expiresAt - o.gatewayReading realTime))) ∧
      0 < expiresAt - o.gatewayReading realTime) ∧
    ∀ copy, copies target = some copy → copy = movedCopy o realTime target entry expiresAt

/-- The rebalance is at work since `c₁`, alone and without failures, at the real time. -/
structure Handing (o : ClockOffsets) (realTime : Time) (index : ℕ) (task : RebalanceTask V)
    (key target : String) (entry : CacheEntry V) (expiresAt : Time)
    (c₁ c : DistributedCacheCluster V) : Prop where
  front : FrontKept c₁ c
  others : ∀ j task', c.rebalances[j]? = some task' → j ≠ index → task'.Done
  own : ∃ phase, c.rebalances[index]? = some { task with phase := phase } ∧
    Stage o realTime c₁ key target entry expiresAt (c.copyAt o realTime key) phase

/-- The new owner still waits for the put: it is not planned yet, or a call is scheduled. -/
def Waits (index : ℕ) (key target : String) (c : DistributedCacheCluster V) : Prop :=
  ∀ task ring pending, c.rebalances[index]? = some task → task.phase = .migrating ring pending →
    ∃ call ∈ pending, call.nodeId = target ∧ call.key = key

theorem Handover.handing
    (h : Handover hashToInt o realTime c₁ index task key source target entry expiresAt) :
    Handing o realTime index task key target entry expiresAt c₁ c₁ := by
  refine ⟨.refl c₁, h.others, .submitted, ?_, rfl⟩
  rw [h.rebalance, ← h.submitted]

theorem Handover.waits
    (h : Handover hashToInt o realTime c₁ index task key source target entry expiresAt) :
    Waits index key target c₁ := by
  intro task' ring pending htask hphase
  obtain rfl := Option.some.inj (h.rebalance.symm.trans htask)
  rw [h.submitted] at hphase
  cases hphase

/-- After a step the rebalance is still at work, and the new owner has stopped waiting only if it
has got its copy. -/
structure HandedOn (o : ClockOffsets) (realTime : Time) (index : ℕ) (task : RebalanceTask V)
    (key target : String) (entry : CacheEntry V) (expiresAt : Time)
    (c₁ c c' : DistributedCacheCluster V) : Prop where
  handing : Handing o realTime index task key target entry expiresAt c₁ c'
  arrival : 0 < expiresAt - o.gatewayReading realTime → Waits index key target c →
    Waits index key target c' ∨
      c'.transport.lookup target key = some (movedCopy o realTime target entry expiresAt)

theorem waits_setPhase {task' : RebalanceTask V} (htask : c.rebalances[index]? = some task')
    {transport : NodeTransport V} {phase : RebalancePhase V}
    (h : ∀ ring pending, phase = .migrating ring pending →
      ∃ call ∈ pending, call.nodeId = target ∧ call.key = key) :
    Waits index key target ({ c with transport := transport }.setPhase index task' phase) := by
  intro task'' ring pending hget hphase
  have hlt := (List.getElem?_eq_some_iff.mp htask).1
  change (c.rebalances.set index _)[index]? = _ at hget
  rw [List.getElem?_set_self hlt] at hget
  obtain rfl := Option.some.inj hget
  exact h ring pending hphase

namespace Handing

/-- A step of a rebalance that is not done is a step of the one at work. -/
theorem eq_of_phase (h : Handing o realTime index task key target entry expiresAt c₁ c) {j : ℕ}
    {task' : RebalanceTask V} (hj : c.rebalances[j]? = some task') (hdone : ¬task'.Done) :
    j = index ∧ task' = { task with phase := task'.phase } ∧
      Stage o realTime c₁ key target entry expiresAt (c.copyAt o realTime key) task'.phase := by
  have hji : j = index := by
    by_contra hne
    exact hdone (h.others j task' hj hne)
  obtain ⟨phase, hown, hstage⟩ := h.own
  subst hji
  obtain rfl := Option.some.inj (hj.symm.trans hown)
  exact ⟨rfl, rfl, hstage⟩

/-- The rebalance at work goes to another phase. -/
theorem setPhase (h : Handing o realTime index task key target entry expiresAt c₁ c)
    {transport : NodeTransport V} (hsame : c.transport.SameNodes transport)
    {task' : RebalanceTask V} (htask : task' = { task with phase := task'.phase })
    {phase : RebalancePhase V} (hstage : Stage o realTime c₁ key target entry expiresAt
      ({ c with transport := transport }.copyAt o realTime key) phase) :
    Handing o realTime index task key target entry expiresAt c₁
      ({ c with transport := transport }.setPhase index task' phase) := by
  obtain ⟨phase', hown, -⟩ := h.own
  have hlt := (List.getElem?_eq_some_iff.mp hown).1
  refine ⟨h.front.trans (frontKept_setPhase c hsame index task' phase),
    fun j task'' hj hne => ?_, phase, ?_, hstage⟩
  · change (c.rebalances.set index _)[j]? = some task'' at hj
    rw [List.getElem?_set_ne hne.symm] at hj
    exact h.others j task'' hj hne
  · change (c.rebalances.set index _)[index]? = _
    rw [List.getElem?_set_self hlt, htask]

/-- The rebalance begins. -/
theorem begin
    (hh : Handover hashToInt o realTime c₁ index task key source target entry expiresAt)
    (h : Handing o realTime index task key target entry expiresAt c₁ c) {j : ℕ}
    (hs : c.runBackground hashToInt (.begin j) = some c') :
    HandedOn o realTime index task key target entry expiresAt c₁ c c' := by
  obtain ⟨task', htask', hphase, rfl⟩ := runBackground_begin hs
  obtain ⟨rfl, heq, hstage⟩ := h.eq_of_phase htask' (by rw [RebalanceTask.Done, hphase]; exact id)
  rw [hphase] at hstage
  refine ⟨h.setPhase (.refl c.transport) heq ⟨hstage, ?_, ?_, ?_⟩, fun _ _ =>
    Or.inl (waits_setPhase htask' fun ring pending hmigrating => by cases hmigrating)⟩
  · rw [h.front.manager]
    rfl
  · rw [h.front.manager, hh.coherent.map_nodeId_getAllNodes]
    rfl
  · intro n entries hget
    cases hget

/-- The snapshot of a member is read. -/
theorem snapshot
    (hh : Handover hashToInt o realTime c₁ index task key source target entry expiresAt)
    (h : Handing o realTime index task key target entry expiresAt c₁ c) {j : ℕ} {now : Time}
    (hreads : c.ReadsAt o realTime (.snapshot j now .carriedOut))
    (hs : c.runBackground hashToInt (.snapshot j now .carriedOut) = some c') :
    HandedOn o realTime index task key target entry expiresAt c₁ c c' := by
  obtain ⟨task', ring, node, todo, snapshots, htask', hphase, hcase⟩ := runBackground_snapshot hs
  obtain ⟨rfl, heq, hstage⟩ := h.eq_of_phase htask' (by rw [RebalanceTask.Done, hphase]; exact id)
  rw [hphase] at hstage
  obtain ⟨hcopies, rfl, hkeys, hseen⟩ := hstage
  obtain rfl : now = o.reading realTime node.nodeId := by
    refine hreads node ?_
    rw [nodeToRead, htask', Option.bind_some]
    simp only [hphase]
  have hmember : node.nodeId ∈ c₁.manager.nodes := by
    rw [OrderedDict.mem_def, ← hkeys]
    simp
  have hanswers : c.transport.Answers node.nodeId :=
    h.front.sameNodes.answers_iff.mpr (hh.answers _ hmember)
  rcases hcase with ⟨hnone, -⟩ | ⟨entries, transport, hsnap, rfl⟩
  · obtain ⟨rt, -, hrt⟩ := NodeTransport.exists_runtime hanswers
    rw [NodeTransport.trySnapshot, NodeTransport.snapshot, hrt] at hnone
    cases hnone
  · obtain ⟨hshown, hleft⟩ := NodeTransport.trySnapshot_eq_unexpired hsnap
    have hsame : { c with transport := transport }.copyAt o realTime key =
        c.copyAt o realTime key := by
      refine copyAt_congr rfl fun n => ?_
      change transport.unexpired _ n key = _
      rw [NodeTransport.unexpired, hleft]
      split_ifs with hn
      · rw [hn, NodeTransport.unexpired]
        cases c.transport.lookup node.nodeId key <;> simp
      · rfl
    have hnew : node.nodeId ∉ snapshots := by
      have hnodup := c₁.manager.nodes.keys_nodup
      rw [← hkeys, List.map_cons] at hnodup
      exact fun hmem => (List.nodup_append.mp hnodup).2.2 _ hmem _ List.mem_cons_self rfl
    refine ⟨h.setPhase (NodeTransport.sameNodes_trySnapshot hsnap) heq
      ⟨hsame.trans hcopies, rfl, ?_, fun n entries' hget => ?_⟩, fun _ _ =>
      Or.inl (waits_setPhase htask' fun ring pending hmigrating => by cases hmigrating)⟩
    · rw [← hkeys, OrderedDict.keys_set_of_not_mem hnew entries, List.append_assoc]
      rfl
    · rw [OrderedDict.get?_set] at hget
      split_ifs at hget with hn
      · obtain rfl := Option.some.inj hget
        rw [hn, hshown, ← hcopies, copyAt, h.front.manager, if_pos hmember]
      · exact hseen n entries' hget

/-- The planner plans. -/
theorem plan
    (hh : Handover hashToInt o realTime c₁ index task key source target entry expiresAt)
    (h : Handing o realTime index task key target entry expiresAt c₁ c) {j : ℕ} {now : Time}
    {clock : String → Clock} (hreads : c.ReadsAt o realTime (.plan j now clock))
    (hs : c.runBackground hashToInt (.plan j now clock) = some c') :
    HandedOn o realTime index task key target entry expiresAt c₁ c c' := by
  obtain ⟨task', ring, snapshots, htask', hphase, rfl⟩ := runBackground_plan hs
  obtain ⟨rfl, heq, hstage⟩ := h.eq_of_phase htask' (by rw [RebalanceTask.Done, hphase]; exact id)
  rw [hphase] at hstage
  obtain ⟨hcopies, rfl, hkeys, hseen⟩ := hstage
  rw [List.map_nil, List.append_nil] at hkeys
  obtain ⟨rfl, hclock⟩ := hreads
  obtain rfl : clock = fun _ _ => o.gatewayReading realTime := funext₂ hclock
  have hinput : (c.planInput task' c₁.manager.ring snapshots (o.gatewayReading realTime)
      fun _ _ => o.gatewayReading realTime) = c₁.inputAt o realTime task snapshots := by
    rw [planInput, h.front.manager, heq]
    rfl
  have hchange : task'.change = task.change := by rw [heq]
  rw [hinput, hchange]
  refine ⟨h.setPhase (.refl c.transport) heq ⟨fun call hcall => hh.eq_put_of_mem_plan hkeys hseen
    hcall, fun copy hcopy => ?_⟩, fun hpos _ => Or.inl (waits_setPhase htask' ?_)⟩
  · change c.copyAt o realTime key target = some copy at hcopy
    rw [hcopies, hh.lacks] at hcopy
    cases hcopy
  · intro ring pending hmigrating
    obtain ⟨-, rfl⟩ := RebalancePhase.migrating.inj hmigrating
    exact hh.exists_mem_plan hkeys hseen hpos

/-- The put to the new owner is carried out. -/
theorem lookup_runTask_put (hanswers : c.transport.Answers target) {node : NodeConfig}
    (hnode : node.nodeId = target) {clock : Clock} (hclock : clock 0 = o.reading realTime target)
    (hpos : 0 < expiresAt - o.gatewayReading realTime) :
    (c.transport.runTask clock .carriedOut (.put node key entry.value
      (some (expiresAt - o.gatewayReading realTime)))).lookup target key =
      some (movedCopy o realTime target entry expiresAt) := by
  subst hnode
  obtain ⟨rt, -, hrt⟩ := NodeTransport.exists_runtime hanswers
  obtain ⟨⟨result, transport⟩, hput⟩ : ∃ answer, c.transport.put clock node key entry.value
      (some (expiresAt - o.gatewayReading realTime)) = some answer := by
    rw [NodeTransport.put, hrt]
    exact ⟨_, rfl⟩
  rw [NodeTransport.runTask, NodeTransport.limitedPut, hput]
  dsimp only
  rw [NodeTransport.lookup_put_self hput, CacheStore.putEntry, if_neg (not_le.mpr hpos), hclock]
  rfl

/-- A scheduled call of another node or key leaves a copy as it is, or drops it. -/
theorem lookup_of_runTask {call : MigrationTask V}
    (hcell : ¬(call.nodeId = target ∧ call.key = key)) {clock : Clock} {outcome : CallOutcome}
    {copy : CacheEntry V}
    (h : (c.transport.runTask clock outcome call).lookup target key = some copy) :
    c.transport.lookup target key = some copy := by
  cases call with
  | put node k value ttlSeconds =>
    exact (NodeTransport.lookup_of_limitedPut h).resolve_right fun hnew =>
      hcell ⟨hnew.1.symm, hnew.2.1⟩
  | delete node k => exact NodeTransport.lookup_of_limitedDelete h

/-- An unexpired copy on the new owner after a scheduled call. -/
theorem lookup_of_copyAt {transport : NodeTransport V} (hmember : target ∈ c.manager.nodes)
    {copy : CacheEntry V}
    (h : { c with transport := transport }.copyAt o realTime key target = some copy) :
    transport.lookup target key = some copy ∧
      copy.isExpired (o.reading realTime target) = false := by
  rw [copyAt, if_pos hmember] at h
  exact NodeTransport.unexpired_eq_some_iff.mp h

/-- A scheduled call is carried out. -/
theorem migrate
    (hh : Handover hashToInt o realTime c₁ index task key source target entry expiresAt)
    (h : Handing o realTime index task key target entry expiresAt c₁ c) {j i : ℕ} {clock : Clock}
    (hreads : c.ReadsAt o realTime (.migrate j i clock .carriedOut))
    (hs : c.runBackground hashToInt (.migrate j i clock .carriedOut) = some c') :
    HandedOn o realTime index task key target entry expiresAt c₁ c c' := by
  obtain ⟨task', ring, pending, call, htask', hphase, hcall, rfl⟩ := runBackground_migrate hs
  have hmem : call ∈ pending := List.mem_of_getElem? hcall
  have hdone : ¬task'.Done := by
    obtain ⟨call', rest, rfl⟩ := List.exists_cons_of_ne_nil (List.ne_nil_of_mem hmem)
    rw [RebalanceTask.Done, hphase]
    exact id
  obtain ⟨rfl, heq, hstage⟩ := h.eq_of_phase htask' hdone
  rw [hphase] at hstage
  obtain ⟨hcalls, hcopy⟩ := hstage
  have hclock : ∀ k, clock k = o.reading realTime call.nodeId :=
    hreads call (scheduledCall_eq htask' hphase hcall)
  have htarget : target ∈ c.manager.nodes := by
    rw [h.front.manager]
    exact hh.coherent.mem_of_mem_ownerIds hh.isOwner
  have hleft : ∀ call' ∈ pending.eraseIdx i, call' ∈ pending := fun _ => List.mem_of_mem_eraseIdx
  have hsame := c.transport.sameNodes_runTask clock .carriedOut call
  by_cases hcell : call.nodeId = target ∧ call.key = key
  · -- the call is the put to the new owner
    obtain ⟨⟨node, rfl⟩, hpos⟩ := hcalls call hmem hcell.1 hcell.2
    have hanswers : c.transport.Answers target := by
      refine h.front.sameNodes.answers_iff.mpr (hh.answers _ ?_)
      rwa [h.front.manager] at htarget
    have hreading : clock 0 = o.reading realTime target := (hclock 0).trans (by rw [hcell.1])
    have hlookup : (c.transport.runTask clock .carriedOut _).lookup target key =
        some (movedCopy o realTime target entry expiresAt) :=
      lookup_runTask_put hanswers hcell.1 hreading hpos
    refine ⟨h.setPhase hsame heq ⟨fun call' hcall' => hcalls call' (hleft call' hcall'),
      fun copy hcopy' => ?_⟩, fun _ _ => Or.inr hlookup⟩
    exact Option.some.inj ((lookup_of_copyAt htarget hcopy').1.symm.trans hlookup)
  · refine ⟨h.setPhase hsame heq ⟨fun call' hcall' => hcalls call' (hleft call' hcall'),
      fun copy hcopy' => ?_⟩, fun _ hwaits => Or.inl (waits_setPhase htask' ?_)⟩
    · obtain ⟨hlookup, hlive⟩ := lookup_of_copyAt htarget hcopy'
      refine hcopy copy ?_
      rw [copyAt, if_pos htarget]
      exact NodeTransport.unexpired_eq_some_iff.mpr ⟨lookup_of_runTask hcell hlookup, hlive⟩
    · intro ring' pending' hmigrating
      obtain ⟨-, rfl⟩ := RebalancePhase.migrating.inj hmigrating
      obtain ⟨call', hcall', hcell'⟩ := hwaits task' ring pending htask' hphase
      refine ⟨call', mem_eraseIdx_of_ne hcall hcall' ?_, hcell'⟩
      rintro rfl
      exact hcell hcell'

/-- One background step at the real time. -/
theorem step
    (hh : Handover hashToInt o realTime c₁ index task key source target entry expiresAt)
    (h : Handing o realTime index task key target entry expiresAt c₁ c) {s : BackgroundStep}
    (hs : c.Undelayed hashToInt o realTime s c') :
    HandedOn o realTime index task key target entry expiresAt c₁ c c' := by
  obtain ⟨hsucceeds, hreads, hstep⟩ := hs
  cases s with
  | replicate j clock outcome =>
    obtain ⟨w, hw, -⟩ := runBackground_replicate hstep
    have hnil := h.front.replicaWrites
    rw [hh.replicaWrites, List.sublist_nil] at hnil
    rw [hnil] at hw
    cases hw
  | begin j => exact h.begin hh hstep
  | snapshot j now outcome =>
    obtain rfl : outcome = .carriedOut := hsucceeds
    exact h.snapshot hh hreads hstep
  | plan j now clock => exact h.plan hh hreads hstep
  | migrate j i clock outcome =>
    obtain rfl : outcome = .carriedOut := hsucceeds
    exact h.migrate hh hreads hstep
  | cleanup nodeId now =>
    obtain rfl := Option.some.inj hstep
    obtain rfl : now = o.reading realTime nodeId := hreads
    have hsame : { c with transport :=
        c.transport.cleanup (o.reading realTime nodeId) nodeId }.copyAt o realTime key =
          c.copyAt o realTime key := by
      refine copyAt_congr rfl fun n => ?_
      by_cases hn : n = nodeId
      · rw [hn]
        exact c.transport.unexpired_cleanup _ _ _
      · change (c.transport.cleanup _ nodeId).unexpired _ n key = _
        rw [NodeTransport.unexpired, NodeTransport.lookup_cleanup_of_ne _ _ hn,
          NodeTransport.unexpired]
    obtain ⟨phase, hown, hstage⟩ := h.own
    exact ⟨⟨h.front.trans (frontKept_runBackground hstep), h.others, phase, hown,
      hsame ▸ hstage⟩, fun _ => Or.inl⟩

/-- An unexpired copy on the new owner is the one that the rebalance moved there. -/
theorem eq_movedCopy
    (hh : Handover hashToInt o realTime c₁ index task key source target entry expiresAt)
    (h : Handing o realTime index task key target entry expiresAt c₁ c) {copy : CacheEntry V}
    (hcopy : c.copyAt o realTime key target = some copy) :
    copy = movedCopy o realTime target entry expiresAt := by
  have hlacks : c.copyAt o realTime key ≠ c₁.copyAt o realTime key := by
    intro heq
    rw [heq, hh.lacks] at hcopy
    cases hcopy
  obtain ⟨phase, -, hstage⟩ := h.own
  cases phase with
  | submitted => exact absurd hstage hlacks
  | collecting ring todo snapshots => exact absurd hstage.1 hlacks
  | migrating ring pending => exact hstage.2 copy hcopy

end Handing

variable {steps : List BackgroundStep} {d : DistributedCacheCluster V}

/-- The rebalance, up to any moment. -/
theorem Handover.run
    (hh : Handover hashToInt o realTime c₁ index task key source target entry expiresAt)
    (hrun : Run.Through (Undelayed hashToInt o realTime) c₁ steps c' d) :
    Handing o realTime index task key target entry expiresAt c₁ d :=
  hrun.invariant (fun _ _ _ h hs => (h.step hh hs).handing) hh.handing

/-- If lifetime is left according to the clock of the gateway, the new owner gets its copy. -/
theorem Handover.exists_arrival
    (hh : Handover hashToInt o realTime c₁ index task key source target entry expiresAt)
    (hpos : 0 < expiresAt - o.gatewayReading realTime)
    (hrun : Run (Undelayed hashToInt o realTime) c₁ steps c') (hquiescent : c'.Quiescent) :
    ∃ d, Run.Through (Undelayed hashToInt o realTime) c₁ steps c' d ∧
      d.transport.lookup target key = some (movedCopy o realTime target entry expiresAt) := by
  have hended : ¬Waits index key target c' := by
    intro hwaits
    obtain ⟨phase, hown, -⟩ := (hh.run ⟨steps, [], (List.append_nil _).symm, hrun, .nil c'⟩).own
    obtain ⟨ring, hphase⟩ := done_iff.mp (hquiescent.rebalances _ (List.mem_of_getElem? hown))
    obtain ⟨call, hcall, -⟩ := hwaits _ ring [] hown hphase
    cases hcall
  obtain ⟨a, s, b, hstep, hwaits, hlost, ha, hb⟩ := hrun.exists_losing_step hh.waits hended
  exact ⟨b, hb, (((hh.run ha).step hh hstep).arrival hpos hwaits).resolve_left hlost⟩

/-- **When the remaining lifetime survives a migration.** A rebalance runs alone and without
delays at some real time; it is to take a copy with a lifetime, unexpired on its node, to a new
owner. In every such run that comes to an end, the new owner gets the value with the same
remaining lifetime if and only if the clocks of the old node and of the gateway do not differ. -/
theorem lifetime_survives_iff
    (hh : Handover hashToInt o realTime c index task key source target entry expiresAt)
    (hrun : Run (Undelayed hashToInt o realTime) c steps c') (hquiescent : c'.Quiescent) :
    (∃ d copy, Run.Through (Undelayed hashToInt o realTime) c steps c' d ∧
      d.transport.lookup target key = some copy ∧ copy.value = entry.value ∧
      copy.remaining (o.reading realTime target) = entry.remaining (o.reading realTime source)) ↔
    o.node source = o.gateway := by
  have hleft : o.reading realTime source < expiresAt := by
    have hcopy := hh.copy
    rw [copyAt] at hcopy
    split_ifs at hcopy
    have hlive := (NodeTransport.unexpired_eq_some_iff.mp hcopy).2
    rw [CacheEntry.isExpired, hh.expires] at hlive
    exact not_le.mp (of_decide_eq_false hlive)
  have hremaining : entry.remaining (o.reading realTime source) =
      some (expiresAt - o.reading realTime source) := by
    rw [CacheEntry.remaining, hh.expires, Option.map_some]
  rw [hremaining]
  constructor
  · rintro ⟨d, copy, hthrough, hlookup, -, hsame⟩
    obtain ⟨expiresAt', hexpires, hsub⟩ := Option.map_eq_some_iff.mp hsame
    have hhanding := hh.run hthrough
    -- the copy has as much lifetime left as the one at the source, so it has not expired
    have hcopy : d.copyAt o realTime key target = some copy := by
      have hmember : target ∈ d.manager.nodes := by
        rw [hhanding.front.manager]
        exact hh.coherent.mem_of_mem_ownerIds hh.isOwner
      have hlive : o.reading realTime target < expiresAt' :=
        sub_pos.mp (hsub ▸ sub_pos.mpr hleft)
      rw [copyAt, if_pos hmember, NodeTransport.unexpired_eq_some_iff, CacheEntry.isExpired,
        hexpires]
      exact ⟨hlookup, decide_eq_false (not_le.mpr hlive)⟩
    obtain rfl := hhanding.eq_movedCopy hh hcopy
    obtain rfl := Option.some.inj hexpires
    rw [add_sub_cancel_left, sub_right_inj] at hsub
    exact (add_left_cancel hsub).symm
  · intro hclocks
    have hreading : o.gatewayReading realTime = o.reading realTime source := by
      rw [ClockOffsets.gatewayReading, ClockOffsets.reading, hclocks]
    obtain ⟨d, hthrough, hlookup⟩ := hh.exists_arrival
      (by rw [hreading]; exact sub_pos.mpr hleft) hrun hquiescent
    refine ⟨d, _, hthrough, hlookup, rfl, ?_⟩
    rw [CacheEntry.remaining, movedCopy, Option.map_some, add_sub_cancel_left, hreading]

/-! ### Two nodes and a gateway on three machines -/

/-- The clocks of the gateway, of the node `"a"` and of the other nodes at the real time 0. -/
def sampleOffsets (a other : Time) : ClockOffsets :=
  ⟨0, fun nodeId => if nodeId = "a" then a else other⟩

/-- The processes of `"a"`, `"b"` and `"n"`. The node `"a"` got the value `1` for `"k"` at the
real time 0, with a lifetime of 3 seconds. Then `"n"` joined `"a"` and `"b"`. -/
def sampleExpiring (a : Time) : DistributedCacheCluster ℕ :=
  (serve sampleHash
    { sampleCluster ["a", "b"] with
      transport :=
        { kind := .http
          runtimes := fun nodeId =>
            if nodeId = "a" then
              some ((sampleRuntime "a").putLocal (fun _ => a) "k" (some 1) (some 3)).2
            else some (sampleRuntime nodeId)
          reachable := fun _ => true } }
    (fun _ => 0) (.addNode (sampleNode "n") none)).2

/-- The rebalance, where `"a"` and the other nodes read their clocks as `a` and `other`. -/
def sampleHandover (a other : Time) : List BackgroundStep :=
  [.begin 0, .snapshot 0 a .carriedOut, .snapshot 0 other .carriedOut,
    .snapshot 0 other .carriedOut, .plan 0 0 fun _ _ => 0,
    .migrate 0 0 (fun _ => other) .carriedOut]

/-- The readings of the nodes that a step calls are those at the real time 0. -/
def readsAtZero (o : ClockOffsets) (c : DistributedCacheCluster V) : BackgroundStep → Bool
  | .snapshot index now _ =>
    decide ((c.nodeToRead index).map (fun node => o.reading 0 node.nodeId) = some now)
  | .migrate index i clock _ =>
    decide ((c.scheduledCall index i).map (fun call => o.reading 0 call.nodeId) = some (clock 0))
  | _ => true

theorem readsAt_sampleHandover {a other : Time} {s : BackgroundStep}
    (hs : s ∈ sampleHandover a other) (h : readsAtZero (sampleOffsets a other) c s = true) :
    c.ReadsAt (sampleOffsets a other) 0 s := by
  have hsnapshot : ∀ {j : ℕ} {now : Time} {outcome : CallOutcome},
      readsAtZero (sampleOffsets a other) c (.snapshot j now outcome) = true →
      c.ReadsAt (sampleOffsets a other) 0 (.snapshot j now outcome) := by
    intro j now outcome h node hnode
    have hread := of_decide_eq_true h
    rw [hnode] at hread
    exact (Option.some.inj hread).symm
  have hgateway : (sampleOffsets a other).gatewayReading 0 = 0 := add_zero 0
  simp only [sampleHandover, List.mem_cons, List.not_mem_nil, or_false] at hs
  rcases hs with rfl | rfl | rfl | rfl | rfl | rfl
  · trivial
  · exact hsnapshot h
  · exact hsnapshot h
  · exact hsnapshot h
  · exact ⟨hgateway.symm, fun _ _ => hgateway.symm⟩
  · intro call hcall _
    have hread := of_decide_eq_true h
    rw [hcall] at hread
    exact (Option.some.inj hread).symm

theorem exists_sampleHandover_run (a other : Time) (p : DistributedCacheCluster ℕ → Bool)
    (h : ((sampleExpiring a).runAllWhere sampleHash
      (fun c s => readsAtZero (sampleOffsets a other) c s = true)
      (sampleHandover a other)).any p = true) :
    ∃ c', Run (Undelayed sampleHash (sampleOffsets a other) 0) (sampleExpiring a)
      (sampleHandover a other) c' ∧ p c' = true := by
  obtain ⟨c', hrun, hp⟩ := exists_run_where sampleHash _ _ _ p h
  exact ⟨c', hrun.mono_of_mem fun c s c' hs hstep =>
    ⟨hstep.2.1, readsAt_sampleHandover hs hstep.1, hstep.2.2.2⟩, hp⟩

theorem sampleExpiring_coherent (a : Time) : (sampleExpiring a).manager.Coherent sampleHash :=
  (sampleCluster_reachable ["a", "b"]).coherent.addNode 0 (sampleNode "n")

/-- `lifetime_survives_iff` where the clocks of the gateway and of `"a"` agree, and the new owner
is 100 seconds ahead. -/
theorem lifetime_survives_iff_target_ahead :
    let o := sampleOffsets 0 100
    let c := sampleExpiring 0
    ∃ c', Run (Undelayed sampleHash o 0) c (sampleHandover 0 100) c' ∧ c'.Quiescent ∧
      ∃ d copy, Run.Through (Undelayed sampleHash o 0) c (sampleHandover 0 100) c' d ∧
        d.transport.lookup "n" "k" = some copy ∧ copy.value = some 1 ∧
        copy.remaining (o.reading 0 "n") = some 3 := by
  intro o c
  obtain ⟨c', hrun, hc'⟩ := exists_sampleHandover_run 0 100 (fun c' => decide c'.Quiescent)
    (by decide +kernel)
  have hquiescent : c'.Quiescent := of_decide_eq_true hc'
  have hh : Handover sampleHash o 0 c 0
      ⟨.add, (sampleCluster ["a", "b"]).manager.ring, .submitted⟩ "k" "a" "n"
      ⟨some 1, some 3⟩ 3 :=
    { coherent := sampleExpiring_coherent 0
      answers := fun nodeId _ => NodeTransport.answers_iff.mpr ⟨rfl, by
        change ∃ rt, (if nodeId = "a" then _ else some (sampleRuntime nodeId)) = some rt
        split_ifs <;> exact ⟨_, rfl⟩⟩
      replicaWrites := rfl
      others := fun j task' hj hne => by
        obtain ⟨i, rfl⟩ := Nat.exists_eq_succ_of_ne_zero hne
        cases hj
      rebalance := rfl
      submitted := rfl
      moves := by decide +kernel
      isSource := by decide +kernel
      copy := by decide +kernel
      expires := rfl
      isOwner := by decide +kernel
      lacks := by decide +kernel }
  obtain ⟨d, copy, hthrough, hlookup, hvalue, hremaining⟩ :=
    (lifetime_survives_iff hh hrun hquiescent).mpr rfl
  refine ⟨c', hrun, hquiescent, d, copy, hthrough, hlookup, hvalue, hremaining.trans ?_⟩
  decide +kernel

/-- The clock of `"a"` is 5 seconds ahead of the gateway's: at the real time at which the copy of
`"a"` has 3 seconds left, the new owner gets one with 8 seconds left. -/
theorem lifetime_grows :
    let o := sampleOffsets 5 0
    let c := sampleExpiring 5
    c.copyAt o 0 "k" "a" = some ⟨some 1, some 8⟩ ∧ c.copyAt o 0 "k" "n" = none ∧
      c.sourceNode sampleHash o 0 ⟨.add, (sampleCluster ["a", "b"]).manager.ring, .submitted⟩ "k" =
        some "a" ∧
      CacheEntry.remaining (⟨some 1, some 8⟩ : CacheEntry ℕ) (o.reading 0 "a") = some 3 ∧
      ∃ c', Run (Undelayed sampleHash o 0) c (sampleHandover 5 0) c' ∧ c'.Quiescent ∧
        c'.transport.lookup "n" "k" = some ⟨some 1, some 8⟩ ∧
        CacheEntry.remaining (⟨some 1, some 8⟩ : CacheEntry ℕ) (o.reading 0 "n") = some 8 := by
  intro o c
  obtain ⟨c', hrun, hc'⟩ := exists_sampleHandover_run 5 0 (fun c' => decide (c'.Quiescent ∧
    c'.transport.lookup "n" "k" = some ⟨some 1, some 8⟩)) (by decide +kernel)
  obtain ⟨hquiescent, hcopy⟩ := of_decide_eq_true hc'
  exact ⟨by decide +kernel, by decide +kernel, by decide +kernel, by decide +kernel, c', hrun,
    hquiescent, hcopy, by decide +kernel⟩

end DistributedCacheCluster

end DistributedCache
