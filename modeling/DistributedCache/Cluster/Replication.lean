import DistributedCache.Cluster.LedgerRuns

/-!
# Background replication

A put answers before the write of the second owner takes effect, and nothing orders that write
with later calls: a write that lands after a delete brings the key back on the replica, and two
writes that land in the wrong order leave the replica with the older value. As long as neither
happens, the replica ends up with what the primary has.

## Main definitions

* `Observed.Settled` : the owners of a key agree with the map, and nothing is under way.

## Main results

* `Ledger.replication_converges` : the owners agree once all writes in time have landed.
* `Ledger.replication_diverges` : a write that lands after a delete brings the key back.
-/

namespace DistributedCache

open Library DistributedCacheCluster

variable {V : Type*} {hashToInt : String → ℕ}

namespace Observed

/-- A cluster without background work whose members answer, where the owners of the key agree
with the map. -/
structure Settled (hashToInt : String → ℕ) (key : String) (x : Observed V) : Prop where
  manager : x.cluster.manager.Reachable hashToInt Set.univ
  noTtl : x.cluster.transport.NoTtl
  answers : ∀ nodeId ∈ x.cluster.manager.nodes, x.cluster.transport.Answers nodeId
  quiescent : x.cluster.Quiescent
  owners : ∀ node ∈ x.cluster.manager.ring.owners hashToInt key,
    x.cluster.transport.lookup node.nodeId key = (x.map key).map .plain

variable {key : String} {c : DistributedCacheCluster V} {m : KeyValueMap V}

theorem Settled.healthy (h : Settled hashToInt key ⟨c, m⟩) : c.Healthy hashToInt :=
  h.quiescent.healthy h.manager.coherent h.noTtl h.answers

theorem Settled.accounted (h : Settled hashToInt key ⟨c, m⟩) :
    (Ledger.init c m).Accounted hashToInt key := by
  refine Ledger.accounted_init h.healthy (fun job hjob => ?_) m
  obtain ⟨task, htask, rfl⟩ := List.mem_map.mp hjob
  exact (ended_view (h.quiescent.rebalances task htask)).writesToward

theorem Settled.current (h : Settled hashToInt key ⟨c, m⟩) :
    (Ledger.init c m).Current hashToInt key where
  primary node hnode := h.owners node (List.mem_of_head? hnode)
  replica node hnode := Or.inl (h.owners node (List.mem_of_mem_tail hnode))

theorem settled_sampleCluster (ids : List String) (key : String) :
    Settled sampleHash key ⟨sampleCluster ids, fun _ => none⟩ where
  manager := sampleCluster_reachable ids
  noTtl n k e he := by
    rw [sampleCluster_lookup] at he
    cases he
  answers := sampleCluster_answers ids
  quiescent := sampleCluster_quiescent ids
  owners node _ := sampleCluster_lookup ids node.nodeId key

end Observed

namespace Ledger

variable {key : String} {c : DistributedCacheCluster V} {m : KeyValueMap V} {x : Ledger V}

/-- **Background replication converges when every write lands in time.** On a fixed ring with
all nodes alive, take any run of overlapping client calls and background steps in which the writes
of the key come one after another, and each replica write of the key that takes effect carries
what the primary carried out last, or that is still to come to the replica. Whenever no write of
the key is under way, a get answers as the map of acknowledged calls. Once every replica write has
landed, the replica of the key holds exactly what its primary holds, which is the value of that
map. -/
theorem replication_converges (hstart : Observed.Settled hashToInt key ⟨c, m⟩)
    {events : List (GatewayEvent V)}
    (hrun : Run (fun x e x' => x.InTime hashToInt key e ∧ Step hashToInt key x e x') (init c m)
      events x) (hidle : ¬x.UnderWay key) :
    (x.gateway.cluster.replicaWrites = [] →
      (∀ p q, x.gateway.cluster.manager.ring.ownerPair hashToInt key = (some p, some q) →
        x.gateway.cluster.transport.lookup q.nodeId key =
          x.gateway.cluster.transport.lookup p.nodeId key) ∧
      ∀ node ∈ x.gateway.cluster.manager.ring.owners hashToInt key,
        x.gateway.cluster.transport.lookup node.nodeId key =
          (x.acknowledged key).map .plain) ∧
    ∀ clock, x.gateway.cluster.AllAlive clock →
      x.gateway.cluster.manager.ring.owners hashToInt key ≠ [] →
        ∃ r, (x.gateway.cluster.get hashToInt clock key).1 = some r ∧
          r.Is ((ClientOp.get key).answer x.acknowledged) := by
  obtain ⟨haccounted, hcurrent⟩ := hrun.invariant
    (I := fun x => x.Accounted hashToInt key ∧ x.Current hashToInt key)
    (fun _ _ _ h hstep => ⟨(h.1.step hstep.2).1, h.2.step h.1 hstep.1 hstep.2⟩)
    ⟨hstart.accounted, hstart.current⟩
  refine ⟨fun hdone => ?_, fun clock halive hne =>
    hcurrent.get_is_answer haccounted hidle halive hne⟩
  have howners : ∀ node ∈ x.gateway.cluster.manager.ring.owners hashToInt key,
      x.gateway.cluster.transport.lookup node.nodeId key = (x.acknowledged key).map .plain :=
    fun node hnode => hcurrent.lookup_eq haccounted hidle
      (fun w hw => by rw [hdone] at hw; cases hw) hnode
  refine ⟨fun p q hpair => ?_, howners⟩
  have hmem : ∀ node, (some p = some node ∨ some q = some node) →
      node ∈ x.gateway.cluster.manager.ring.owners hashToInt key := fun node hnode =>
    (ConsistentHashRing.mem_owners hashToInt).mpr (by rw [hpair]; exact hnode)
  rw [howners q (hmem q (Or.inr rfl)), howners p (hmem p (Or.inl rfl))]

/-- Two puts of a key, one after the other, whose replica writes land in their order. -/
def sampleTwoPuts : List (GatewayEvent ℕ) :=
  [.arrive (fun _ => 0) (.put "k" (some 1) none), .perform 0 (fun _ => 0), .resume 0 (fun _ => 0),
    .arrive (fun _ => 0) (.put "k" (some 2) none), .perform 1 (fun _ => 0),
    .background (.replicate 0 (fun _ => 0) .carriedOut), .resume 1 (fun _ => 0),
    .background (.replicate 0 (fun _ => 0) .carriedOut)]

/-- `replication_converges` where the replica write of the first put lands while the second put is
under way. -/
theorem replication_converges_two_puts :
    ∃ x, Run (fun x e x' => x.InTime sampleHash "k" e ∧ Step sampleHash "k" x e x')
        (init (sampleCluster ["a", "b"]) fun _ => none) sampleTwoPuts x ∧
      x.gateway.cluster.transport.lookup "b" "k" = x.gateway.cluster.transport.lookup "a" "k" := by
  obtain ⟨x, hrun, hx⟩ := exists_run_where sampleHash "k" 0 (InTime sampleHash "k")
    (init (sampleCluster ["a", "b"]) fun _ => none) sampleTwoPuts
    (by simp [sampleTwoPuts, GatewayEvent.clock?])
    (fun x => decide (¬x.UnderWay "k" ∧ x.gateway.cluster.replicaWrites = [] ∧
      x.gateway.cluster.manager.ring.ownerPair sampleHash "k" =
        (some (sampleNode "a"), some (sampleNode "b")))) (by decide +kernel)
  obtain ⟨hidle, hdone, hpair⟩ := of_decide_eq_true hx
  exact ⟨x, hrun, ((replication_converges (Observed.settled_sampleCluster _ "k") hrun hidle).1
    hdone).1 _ _ hpair⟩

/-- A put, and a delete that is acknowledged before the replica write of the put lands. -/
def sampleDeleteFirst : List (GatewayEvent ℕ) :=
  [.arrive (fun _ => 0) (.put "k" (some 1) none), .perform 0 (fun _ => 0), .resume 0 (fun _ => 0),
    .arrive (fun _ => 0) (.delete "k"), .perform 1 (fun _ => 0), .resume 1 (fun _ => 0),
    .perform 1 (fun _ => 0), .resume 1 (fun _ => 0),
    .background (.replicate 0 (fun _ => 0) .carriedOut)]

/-- A replica write that lands after the delete of its key: the replica keeps the deleted value,
and a get finds it. -/
theorem replication_diverges :
    Observed.Settled sampleHash "k" ⟨sampleCluster ["a", "b"], fun _ => none⟩ ∧
    ∃ x, Run (Step sampleHash "k") (init (sampleCluster ["a", "b"]) fun _ => none)
        sampleDeleteFirst x ∧
      ¬x.UnderWay "k" ∧ x.gateway.cluster.replicaWrites = [] ∧ x.acknowledged "k" = none ∧
      x.gateway.cluster.manager.ring.ownerPair sampleHash "k" =
        (some (sampleNode "a"), some (sampleNode "b")) ∧
      x.gateway.cluster.transport.lookup "a" "k" = none ∧
      x.gateway.cluster.transport.lookup "b" "k" = some (.plain 1) ∧
      (x.gateway.cluster.get sampleHash (fun _ => 0) "k").1.map Response.value =
        some (some (some 1)) := by
  obtain ⟨x, hrun, hx⟩ := exists_run_where sampleHash "k" 0 (fun _ _ => True)
    (init (sampleCluster ["a", "b"]) fun _ => none) sampleDeleteFirst
    (by simp [sampleDeleteFirst, GatewayEvent.clock?])
    (fun x => decide (¬x.UnderWay "k" ∧ x.gateway.cluster.replicaWrites = [] ∧
      x.acknowledged "k" = none ∧
      x.gateway.cluster.manager.ring.ownerPair sampleHash "k" =
        (some (sampleNode "a"), some (sampleNode "b")) ∧
      x.gateway.cluster.transport.lookup "a" "k" = none ∧
      x.gateway.cluster.transport.lookup "b" "k" = some (.plain 1) ∧
      (x.gateway.cluster.get sampleHash (fun _ => 0) "k").1.map Response.value =
        some (some (some 1)))) (by decide +kernel)
  exact ⟨Observed.settled_sampleCluster _ "k", x, hrun.mono fun _ _ _ h => h.2,
    of_decide_eq_true hx⟩

end Ledger

end DistributedCache
