import DistributedCache.Cluster.Topology
import DistributedCache.Library.Overlap

/-!
# Overlapping topology changes

Nodes join one after another without waiting for the rebalances. Each rebalance plans from the
ring that it read when it began, and only the one submitted last is waited for. When the
rebalances take turns, so that none begins while another one still moves the key to owners on an
older ring, and the last one ends last, the keys end up on their owners. Otherwise the wait may
return while a rebalance is left, with keys that are not where they belong.

## Main definitions

* `DistributedCacheCluster.WaitReturns` : `wait_for_rebalance` returns.
* `DistributedCacheCluster.endsRebalance` : the rebalance that a step ends.
* `DistributedCacheCluster.TakesTurns` : the condition on a step.

## Main results

* `DistributedCacheCluster.changes_settle` : the keys end up on their owners.
* `DistributedCacheCluster.changes_left_unsettled` : the last rebalance may end first.
-/

namespace DistributedCache

open Library Library.Relocation

variable {V : Type*}

section Definitions

variable (hashToInt : String → ℕ) (key : String)

/-- The rebalance moves the key to its owners on the ring, if it still moves the key at all. -/
def RebalanceTask.MovesTo (ring : ConsistentHashRing) (task : RebalanceTask V) : Prop :=
  match task.phase with
  | .submitted => True
  | .collecting currentRing _ _ =>
    Moves (task.previousRing.ownerSet hashToInt key) (currentRing.ownerSet hashToInt key) →
      currentRing.ownerSet hashToInt key = ring.ownerSet hashToInt key
  | .migrating currentRing pending =>
    (∃ call ∈ pending, (call.write key).isSome) →
      currentRing.ownerSet hashToInt key = ring.ownerSet hashToInt key

instance (ring : ConsistentHashRing) (task : RebalanceTask V) :
    Decidable (task.MovesTo hashToInt key ring) := by
  unfold RebalanceTask.MovesTo
  split <;> infer_instance

namespace DistributedCacheCluster

/-- `wait_for_rebalance` returns: the rebalance submitted last has ended, if there was one. -/
def WaitReturns (c : DistributedCacheCluster V) : Prop :=
  ∀ index, c.rebalanceFuture = some index → ∃ task, c.rebalances[index]? = some task ∧ task.Done

/-- The rebalance that the step ends: a snapshot fails, nothing is planned, or the only call left
is run. -/
def endsRebalance (c : DistributedCacheCluster V) : BackgroundStep → Option ℕ
  | .snapshot index now outcome =>
    c.rebalances[index]?.bind fun task =>
      match task.phase with
      | .collecting _ (node :: _) _ =>
        if (c.transport.trySnapshot now outcome node).isNone then some index else none
      | _ => none
  | .plan index now clock =>
    c.rebalances[index]?.bind fun task =>
      match task.phase with
      | .collecting currentRing [] snapshots =>
        if ((c.planInput task currentRing snapshots now clock).plan hashToInt
          task.change).isEmpty then some index else none
      | _ => none
  | .migrate index _ _ _ =>
    c.rebalances[index]?.bind fun task =>
      match task.phase with
      | .migrating _ [_] => some index
      | _ => none
  | _ => none

/-- A rebalance begins only when no other one moves the key elsewhere, and the rebalance that was
submitted last ends only when all others have ended. -/
def TakesTurns (c : DistributedCacheCluster V) (s : BackgroundStep) : Prop :=
  (match s with
    | .begin _ => ∀ task ∈ c.rebalances, task.MovesTo hashToInt key c.manager.ring
    | _ => True) ∧
  ∀ index ∈ c.endsRebalance hashToInt s, c.rebalanceFuture = some index →
    ∀ p ∈ c.rebalances.zipIdx, p.2 ≠ index → p.1.Done

instance (c : DistributedCacheCluster V) (s : BackgroundStep) :
    Decidable (c.TakesTurns hashToInt key s) := by
  unfold TakesTurns
  split <;> infer_instance

/-- A node joins without the key, or the background loop takes a step without failures that meets
the condition `P`. -/
inductive Joining (P : DistributedCacheCluster V → BackgroundStep → Prop) :
    DistributedCacheCluster V → Event V → DistributedCacheCluster V → Prop
  | addNode {c : DistributedCacheCluster V} {clock : Clock} {node : NodeConfig}
      {runtime : Option (NodeRuntime V)} (hjoins : c.Joins clock node runtime)
      (hwithout : c.JoinsWithout clock key (.addNode node runtime)) :
      Joining P c (.call clock (.addNode node runtime))
        (c.serve hashToInt clock (.addNode node runtime)).2
  | background {c c' : DistributedCacheCluster V} {s : BackgroundStep}
      (hs : P c s ∧ c.WorksWell hashToInt s c') : Joining P c (.background s) c'

end DistributedCacheCluster

end Definitions

variable {hashToInt : String → ℕ} {key : String}

/-- The relocation machine sees where a rebalance moves the key. -/
theorem RebalanceTask.MovesTo.view {ring : ConsistentHashRing} {task : RebalanceTask V}
    (h : task.MovesTo hashToInt key ring) :
    (task.view hashToInt key).MovesTo (ring.ownerSet hashToInt key) := by
  obtain ⟨change, previousRing, phase⟩ := task
  cases phase with
  | submitted => trivial
  | collecting currentRing todo snapshots => exact h
  | migrating currentRing pending =>
    rintro ⟨w, call, hcall, hw⟩
    exact h ⟨call, hcall, by rw [hw]; rfl⟩

namespace DistributedCacheCluster

variable {c c' : DistributedCacheCluster V} {s : BackgroundStep}

/-! ### Ends of rebalances -/

/-- The rebalances after one of them went on. -/
private theorem getElem?_setPhase {transport : NodeTransport V} {index j : ℕ}
    {task task' : RebalanceTask V} {phase : RebalancePhase V}
    (h : ({ c with transport := transport }.setPhase index task phase).rebalances[j]? =
      some task') : j = index ∧ task' = { task with phase := phase } ∨
        j ≠ index ∧ c.rebalances[j]? = some task' := by
  change (c.rebalances.set index _)[j]? = some task' at h
  rw [List.getElem?_set] at h
  split_ifs at h with hij hlt
  · exact Or.inl ⟨hij.symm, (Option.some.inj h).symm⟩
  · exact Or.inr ⟨fun hji => hij hji.symm, h⟩

/-- A rebalance that has ended after a step had ended before, or the step ends it. -/
theorem done_of_runBackground (h : c.runBackground hashToInt s = some c') {j : ℕ}
    {task : RebalanceTask V} (hj : c'.rebalances[j]? = some task) (hdone : task.Done) :
    c.rebalances[j]? = some task ∨ j ∈ c.endsRebalance hashToInt s := by
  cases s with
  | replicate index clock outcome =>
    obtain ⟨w, -, rfl⟩ := runBackground_replicate h
    exact Or.inl hj
  | begin index =>
    obtain ⟨task', -, -, rfl⟩ := runBackground_begin h
    rcases getElem?_setPhase hj with ⟨-, rfl⟩ | ⟨-, hj⟩
    · exact hdone.elim
    · exact Or.inl hj
  | snapshot index now outcome =>
    obtain ⟨task', ring, node, todo, snapshots, htask, hphase, ⟨htry, rfl⟩ | ⟨_, _, -, rfl⟩⟩ :=
      runBackground_snapshot h
    · rcases getElem?_setPhase hj with ⟨rfl, -⟩ | ⟨-, hj⟩
      · refine Or.inr ?_
        rw [endsRebalance, htask, Option.bind_some]
        simp [hphase, htry]
      · exact Or.inl hj
    · rcases getElem?_setPhase hj with ⟨-, rfl⟩ | ⟨-, hj⟩
      · exact hdone.elim
      · exact Or.inl hj
  | plan index now clock =>
    obtain ⟨task', ring, snapshots, htask, hphase, rfl⟩ := runBackground_plan h
    rcases getElem?_setPhase hj with ⟨rfl, rfl⟩ | ⟨-, hj⟩
    · obtain ⟨ring', heq⟩ := done_iff.mp hdone
      refine Or.inr ?_
      rw [endsRebalance, htask, Option.bind_some]
      simp [hphase, (RebalancePhase.migrating.inj heq).2]
    · exact Or.inl hj
  | migrate index i clock outcome =>
    obtain ⟨task', ring, pending, call, htask, hphase, hcall, rfl⟩ := runBackground_migrate h
    rcases getElem?_setPhase hj with ⟨rfl, rfl⟩ | ⟨-, hj⟩
    · obtain ⟨ring', heq⟩ := done_iff.mp hdone
      have hempty : pending.eraseIdx i = [] := (RebalancePhase.migrating.inj heq).2
      have hlt := (List.getElem?_eq_some_iff.mp hcall).1
      have hlength := List.length_eraseIdx_of_lt hlt
      rw [hempty, List.length_nil] at hlength
      obtain ⟨only, rfl⟩ := List.length_eq_one_iff.mp (show pending.length = 1 by omega)
      refine Or.inr ?_
      rw [endsRebalance, htask, Option.bind_some]
      simp [hphase]
    · exact Or.inl hj
  | cleanup nodeId now =>
    obtain rfl := Option.some.inj h
    exact Or.inl hj

/-- A rebalance that has ended is not touched again. -/
theorem getElem?_of_done (h : c.runBackground hashToInt s = some c') {j : ℕ}
    {task : RebalanceTask V} (hj : c.rebalances[j]? = some task) (hdone : task.Done) :
    c'.rebalances[j]? = some task := by
  obtain ⟨ring, hring⟩ := done_iff.mp hdone
  have hother : ∀ {index : ℕ} {task' : RebalanceTask V} {transport : NodeTransport V}
      {phase : RebalancePhase V}, c.rebalances[index]? = some task' →
      (∀ ring, task'.phase ≠ .migrating ring []) →
      ({ c with transport := transport }.setPhase index task' phase).rebalances[j]? =
        some task := by
    intro index task' transport phase htask hnot
    change (c.rebalances.set index _)[j]? = _
    rw [List.getElem?_set_ne, hj]
    rintro rfl
    rw [hj] at htask
    exact hnot ring (Option.some.inj htask ▸ hring)
  cases s with
  | replicate index clock outcome =>
    obtain ⟨w, -, rfl⟩ := runBackground_replicate h
    exact hj
  | begin index =>
    obtain ⟨task', htask, hphase, rfl⟩ := runBackground_begin h
    exact hother htask (by simp [hphase])
  | snapshot index now outcome =>
    obtain ⟨task', ring, node, todo, snapshots, htask, hphase, ⟨-, rfl⟩ | ⟨_, _, -, rfl⟩⟩ :=
      runBackground_snapshot h <;>
    exact hother htask (by simp [hphase])
  | plan index now clock =>
    obtain ⟨task', ring, snapshots, htask, hphase, rfl⟩ := runBackground_plan h
    exact hother htask (by simp [hphase])
  | migrate index i clock outcome =>
    obtain ⟨task', ring, pending, call, htask, hphase, hcall, rfl⟩ := runBackground_migrate h
    refine hother htask fun ring' heq => ?_
    rw [hphase] at heq
    rw [(RebalancePhase.migrating.inj heq).2] at hcall
    cases hcall
  | cleanup nodeId now =>
    obtain rfl := Option.some.inj h
    exact hj

/-! ### Rebalances that take turns -/

/-- The rebalances at work move the key to one set of owners, and when the last one has ended all
have. -/
structure Overlapping (hashToInt : String → ℕ) (key : String) (entry : CacheEntry V)
    (c : DistributedCacheCluster V) : Prop where
  healthy : c.Healthy hashToInt
  replicaWrites : c.replicaWrites = []
  overlap : ∃ target, Overlap entry target (c.keyView hashToInt key)
  lastEnds : c.WaitReturns → ∀ task ∈ c.rebalances, task.Done

variable {entry : CacheEntry V}

/-- A node that joins without the key joins the relocation machine. -/
private theorem step_join {clock : Clock} {node : NodeConfig} {runtime : Option (NodeRuntime V)}
    (hjoins : c.Joins clock node runtime)
    (hwithout : c.JoinsWithout clock key (.addNode node runtime)) :
    Step (c.keyView hashToInt key) .join
      ((c.serve hashToInt clock (.addNode node runtime)).2.keyView hashToInt key) := by
  have hview : (c.serve hashToInt clock (.addNode node runtime)).2.keyView hashToInt key =
      ⟨(c.manager.nodes.set node.nodeId node).keys,
        (c.manager.ring.addNode hashToInt node).ownerSet hashToInt key,
        fun nodeId => (c.transport.registerNode (clock 0) node runtime).lookup nodeId key,
        (c.keyView hashToInt key).jobs ++ [⟨(c.keyView hashToInt key).goal, .waiting⟩]⟩ := by
    rw [addNode_eq hjoins.new]
    simp only [keyView, startRebalanceTask, List.map_append, List.map_singleton]
    rfl
  have hmem : ∀ nodeId, nodeId ∈ (c.manager.nodes.set node.nodeId node).keys ↔
      nodeId = node.nodeId ∨ nodeId ∈ c.manager.nodes.keys := fun nodeId => by
    rw [← OrderedDict.mem_def, OrderedDict.mem_set, OrderedDict.mem_def]
  rw [hview]
  refine .join (fun nodeId hn => (hmem nodeId).mpr (Or.inr hn)) fun nodeId hn => ?_
  by_cases hne : nodeId = node.nodeId
  · subst hne
    have hnew : node.nodeId ∉ (c.keyView hashToInt key).members :=
      fun hin => hjoins.new (OrderedDict.mem_def.mpr hin)
    rw [if_neg hnew]
    exact hwithout
  · have hmember : nodeId ∈ (c.keyView hashToInt key).members :=
      ((hmem nodeId).mp hn).resolve_left hne
    rw [if_pos hmember]
    exact NodeTransport.lookup_registerNode_of_ne hne key

theorem Overlapping.addNode (h : c.Overlapping hashToInt key entry) {clock : Clock}
    {node : NodeConfig} {runtime : Option (NodeRuntime V)} (hjoins : c.Joins clock node runtime)
    (hwithout : c.JoinsWithout clock key (.addNode node runtime)) :
    (c.serve hashToInt clock (.addNode node runtime)).2.Overlapping hashToInt key entry := by
  obtain ⟨target, hoverlap⟩ := h.overlap
  have hhealthy := hjoins.healthy h.healthy
  refine ⟨hhealthy, ?_, ⟨target, hoverlap.join (step_join hjoins hwithout) (fun nodeId hn => ?_) ?_⟩,
    fun hwait => ?_⟩
  · rw [addNode_eq hjoins.new]
    exact h.replicaWrites
  · exact OrderedDict.mem_def.mp
      (hhealthy.coherent.mem_of_mem_ownerIds (ConsistentHashRing.mem_ownerSet.mp hn))
  · rw [addNode_eq hjoins.new]
    exact ConsistentHashRing.ownerSet_nonempty.mpr
      (ConsistentHashRing.isSome_fst_ownerPair_addNode _ node key)
  · -- the rebalance submitted last is the new one
    rw [addNode_eq hjoins.new] at hwait
    obtain ⟨task, htask, hdone⟩ := hwait c.rebalances.length rfl
    change (c.rebalances ++ [_])[c.rebalances.length]? = some task at htask
    rw [List.getElem?_concat_length] at htask
    rw [← Option.some.inj htask] at hdone
    exact hdone.elim

theorem Overlapping.background (h : c.Overlapping hashToInt key entry)
    (hturns : c.TakesTurns hashToInt key s) (hs : c.WorksWell hashToInt s c') :
    c'.Overlapping hashToInt key entry := by
  obtain ⟨hsucceeds, hroom, hrun⟩ := hs
  obtain ⟨target, hoverlap⟩ := h.overlap
  have hfront := frontKept_runBackground hrun
  refine ⟨h.healthy.runBackground hroom hrun, ?_, ?_, fun hwait => ?_⟩
  · have hsub := hfront.replicaWrites
    rw [h.replicaWrites] at hsub
    exact List.eq_nil_of_subset_nil hsub.subset
  · have hrefines := refines_runBackground h.healthy hroom hrun key
    cases ha : c.actionOf key s with
    | none =>
      rw [ha] at hrefines
      rw [show c'.keyView hashToInt key = c.keyView hashToInt key from hrefines]
      exact ⟨target, hoverlap⟩
    | some act =>
      rw [ha] at hrefines
      have hnone : ∀ w ∈ c.replicaWrites, w.key ≠ key := by simp [h.replicaWrites]
      refine hoverlap.step hrefines (actionOf_ofJob hnone ha)
        (actionOf_succeeds hsucceeds ha) fun i hact j job hj => ?_
      have hbegin : s = .begin i := by
        subst hact
        cases s with
        | begin index => exact congrArg _ (Action.begin.inj (Option.some.inj ha))
        | replicate index clock outcome => simp [actionOf, h.replicaWrites] at ha
        | snapshot index now outcome =>
          have hread := Option.some.inj ha
          split_ifs at hread
        | plan index now clock => cases ha
        | migrate index i clock outcome =>
          obtain ⟨w, -, hwrite⟩ := Option.map_eq_some_iff.mp ha
          split_ifs at hwrite
        | cleanup nodeId now => cases ha
      subst hbegin
      rw [keyView, List.getElem?_map] at hj
      obtain ⟨task, htask, rfl⟩ := Option.map_eq_some_iff.mp hj
      exact (hturns.1 task (List.mem_of_getElem? htask)).view
  · have hlast : c.WaitReturns ∨ ∃ index ∈ c.endsRebalance hashToInt s,
        c.rebalanceFuture = some index := by
      by_contra hnot
      rw [not_or] at hnot
      refine hnot.1 fun index hindex => ?_
      obtain ⟨task, htask, hdone⟩ := hwait index (hfront.rebalanceFuture.trans hindex)
      refine ⟨task, (done_of_runBackground hrun htask hdone).resolve_right fun hends => ?_, hdone⟩
      exact hnot.2 ⟨index, hends, hindex⟩
    -- in both cases all rebalances but the last one had ended
    have hothers : ∀ j task, c.rebalances[j]? = some task → task.Done ∨
        c.rebalanceFuture = some j := by
      intro j task htask
      rcases hlast with hwait | ⟨index, hends, hindex⟩
      · exact Or.inl (h.lastEnds hwait task (List.mem_of_getElem? htask))
      · by_cases hne : j = index
        · exact Or.inr (hne ▸ hindex)
        · refine Or.inl (hturns.2 index hends hindex (task, j) ?_ hne)
          exact List.mem_zipIdx_iff_getElem?.mpr htask
    intro task' htask'
    obtain ⟨j, hj⟩ := List.mem_iff_getElem?.mp htask'
    have hlt : j < c.rebalances.length := by
      rw [← hfront.length]
      exact (List.getElem?_eq_some_iff.mp hj).1
    rcases hothers j _ (List.getElem?_eq_getElem hlt) with hdone | hindex
    · have hsame := getElem?_of_done hrun (List.getElem?_eq_getElem hlt) hdone
      rw [hj] at hsame
      exact Option.some.inj hsame ▸ hdone
    · obtain ⟨task, htask, hdone⟩ := hwait j (hfront.rebalanceFuture.trans hindex)
      rw [hj] at htask
      exact Option.some.inj htask ▸ hdone

/-- **Overlapping topology changes settle when the rebalances take turns.** Start with a key on
exactly its owners; nodes join without the key, one after another and without waiting, and the
rebalances run without failures, in any interleaving where none begins while another one moves
the key to owners on an older ring, and the last one ends last. When `wait_for_rebalance`
returns, no rebalance is left, the key is on exactly its owners on the current ring, and no
other member holds it. -/
theorem changes_settle {start : DistributedCacheCluster V} {events : List (Event V)}
    (hrest : start.AtRest hashToInt Set.univ)
    (howned : start.manager.ring.owners hashToInt key ≠ [])
    (hplaced : start.Placed hashToInt key (some entry))
    (hrun : Run (Joining hashToInt key (TakesTurns hashToInt key)) start events c)
    (hwait : c.WaitReturns) : c.Placed hashToInt key (some entry) ∧ c.Quiescent := by
  have hstart : start.Overlapping hashToInt key entry := by
    refine ⟨hrest.healthy, hrest.quiescent.replicaWrites,
      ⟨_, Overlap.of_exact ?_ ?_ (ended_of_done hrest.quiescent.rebalances) ?_⟩,
      fun _ => hrest.quiescent.rebalances⟩
    · exact fun nodeId hn => OrderedDict.mem_def.mp
        (hrest.healthy.coherent.mem_of_mem_ownerIds (ConsistentHashRing.mem_ownerSet.mp hn))
    · obtain ⟨node, hnode⟩ := List.exists_mem_of_ne_nil _ howned
      exact ⟨node.nodeId, ConsistentHashRing.mem_ownerSet.mpr (List.mem_map_of_mem hnode)⟩
    · intro nodeId hn
      simp only [keyView, ConsistentHashRing.mem_ownerSet]
      exact hplaced nodeId (OrderedDict.mem_def.mpr hn)
  have h : c.Overlapping hashToInt key entry := by
    refine hrun.invariant (fun x e y hx hstep => ?_) hstart
    cases hstep with
    | addNode hjoins hwithout => exact hx.addNode hjoins hwithout
    | background hs => exact hx.background hs.1 hs.2
  have hdone := h.lastEnds hwait
  obtain ⟨target, hoverlap⟩ := h.overlap
  have hexact := hoverlap.exact_goal (ended_of_done hdone)
  refine ⟨fun nodeId hn => ?_, h.replicaWrites, hdone⟩
  simp only [← ConsistentHashRing.mem_ownerSet]
  exact hexact nodeId (OrderedDict.mem_def.mp hn)

/-- Background steps as steps of a run in which nodes join. -/
private theorem run_joining {P : DistributedCacheCluster V → BackgroundStep → Prop}
    {steps : List BackgroundStep}
    (h : Run (fun c s c' => P c s ∧ WorksWell hashToInt c s c') c steps c') :
    Run (Joining hashToInt key P) c (steps.map .background) c' := by
  induction h with
  | nil c => exact .nil c
  | cons hstep _ ih => exact .cons (.background hstep) ih

/-- `changes_settle` where `"n"` and `"c"` join `"a"` and `"b"` at once, and the rebalances run
one after the other. -/
theorem changes_settle_two_nodes :
    let steps : List BackgroundStep := [.begin 0, .snapshot 0 0 .carriedOut,
      .snapshot 0 0 .carriedOut, .snapshot 0 0 .carriedOut, .snapshot 0 0 .carriedOut,
      .plan 0 0 fun _ _ => 0, .migrate 0 0 (fun _ => 0) .carriedOut,
      .migrate 0 0 (fun _ => 0) .carriedOut, .begin 1, .snapshot 1 0 .carriedOut,
      .snapshot 1 0 .carriedOut, .snapshot 1 0 .carriedOut, .snapshot 1 0 .carriedOut,
      .plan 1 0 fun _ _ => 0]
    ∃ c', Run (Joining sampleHash "k" (TakesTurns sampleHash "k"))
        (sampleHolding ["a", "b"] ["a", "b"])
        (.call (fun _ => 0) (.addNode (sampleNode "n") none) ::
          .call (fun _ => 0) (.addNode (sampleNode "c") none) :: steps.map .background) c' ∧
      c'.WaitReturns ∧ c'.Placed sampleHash "k" (some (.plain 1)) ∧ c'.Quiescent := by
  intro steps
  let c := sampleHolding ["a", "b"] ["a", "b"]
  let c₁ := (c.serve sampleHash (fun _ => 0) (.addNode (sampleNode "n") none)).2
  let c₂ := (c₁.serve sampleHash (fun _ => 0) (.addNode (sampleNode "c") none)).2
  obtain ⟨c', hrun, hc'⟩ := exists_run_where sampleHash (TakesTurns sampleHash "k") c₂ steps
    (fun c' => decide (c'.rebalanceFuture = some 1 ∧
      c'.rebalances.map (fun task => decide task.Done) = [true, true]))
    (by decide +kernel)
  obtain ⟨hfuture, hdone⟩ := of_decide_eq_true hc'
  have hrun' : Run (Joining sampleHash "k" (TakesTurns sampleHash "k")) c
      (.call (fun _ => 0) (.addNode (sampleNode "n") none) ::
        .call (fun _ => 0) (.addNode (sampleNode "c") none) :: steps.map .background) c' :=
    .cons (.addNode ⟨by decide +kernel, by decide +kernel, fun k entry h => by cases h⟩ rfl)
      (.cons (.addNode ⟨by decide +kernel, by decide +kernel, fun k entry h => by cases h⟩ rfl)
        (run_joining hrun))
  have hwait : c'.WaitReturns := by
    intro index hindex
    rw [hfuture] at hindex
    obtain rfl := Option.some.inj hindex
    have hlast := congrArg (fun l => l[1]?) hdone
    simp only [List.getElem?_map, List.getElem?_cons_succ, List.getElem?_cons_zero] at hlast
    obtain ⟨task, htask, hdone⟩ := Option.map_eq_some_iff.mp hlast
    exact ⟨task, htask, of_decide_eq_true hdone⟩
  exact ⟨c', hrun', hwait, changes_settle (sampleHolding_atRest _ _ fun _ _ => Set.mem_univ _)
    (by decide +kernel) sampleHolding_placed hrun' hwait⟩

/-- The rebalance of the first node begins first and schedules its calls. Before they are carried
out that of the second node, which has nothing to move, begins and ends: the wait returns while the
calls of the first rebalance are left, the new primary `"n"` has no copy, and the member `"b"`,
which is no owner, has one. -/
theorem changes_left_unsettled :
    let c := sampleHolding ["a", "b"] ["a", "b"]
    let steps : List BackgroundStep := [.begin 0, .snapshot 0 0 .carriedOut,
      .snapshot 0 0 .carriedOut, .snapshot 0 0 .carriedOut, .snapshot 0 0 .carriedOut,
      .plan 0 0 fun _ _ => 0, .begin 1, .snapshot 1 0 .carriedOut,
      .snapshot 1 0 .carriedOut, .snapshot 1 0 .carriedOut, .snapshot 1 0 .carriedOut,
      .plan 1 0 fun _ _ => 0]
    c.AtRest sampleHash Set.univ ∧ c.Placed sampleHash "k" (some (.plain 1)) ∧
    ∃ c', Run (Joining sampleHash "k" fun _ _ => True) c
        (.call (fun _ => 0) (.addNode (sampleNode "n") none) ::
          .call (fun _ => 0) (.addNode (sampleNode "c") none) :: steps.map .background) c' ∧
      c'.rebalanceFuture = some 1 ∧ c'.rebalances.map (fun task => decide task.Done) =
        [false, true] ∧
      c'.manager.ring.ownerIds sampleHash "k" = ["n", "a"] ∧
      c'.transport.lookup "n" "k" = none ∧ "b" ∈ c'.manager.nodes ∧
      c'.transport.lookup "b" "k" = some (.plain 1) := by
  intro c steps
  let c₁ := (c.serve sampleHash (fun _ => 0) (.addNode (sampleNode "n") none)).2
  let c₂ := (c₁.serve sampleHash (fun _ => 0) (.addNode (sampleNode "c") none)).2
  obtain ⟨c', hrun, hc'⟩ := exists_run_where sampleHash (fun _ _ => True) c₂ steps
    (fun c' => decide (c'.rebalanceFuture = some 1 ∧
      c'.rebalances.map (fun task => decide task.Done) = [false, true] ∧
      c'.manager.ring.ownerIds sampleHash "k" = ["n", "a"] ∧
      c'.transport.lookup "n" "k" = none ∧ "b" ∈ c'.manager.nodes ∧
      c'.transport.lookup "b" "k" = some (.plain 1)))
    (by decide +kernel)
  refine ⟨sampleHolding_atRest _ _ fun _ _ => Set.mem_univ _, sampleHolding_placed, c', ?_,
    of_decide_eq_true hc'⟩
  exact .cons (.addNode ⟨by decide +kernel, by decide +kernel, fun k entry h => by cases h⟩ rfl)
    (.cons (.addNode ⟨by decide +kernel, by decide +kernel, fun k entry h => by cases h⟩ rfl)
      (run_joining hrun))

end DistributedCacheCluster

end DistributedCache
