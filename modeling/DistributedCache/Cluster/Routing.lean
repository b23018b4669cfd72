import DistributedCache.Cluster.Manager
import DistributedCache.Cluster.Background

/-!
# Routing decisions

A routing decision checks liveness up to three times, each time at a new reading of the clock.
When the primary crosses its timeout between the first two checks, the third one asks for the
primary again, and the decision gives up although the replica may be alive. With one reading for
all checks the first live owner serves a key, and removing a member that is not alive leaves the
serving node as it is.

Source: `distributed_cache/cluster/manager.py`.

## Main definitions

* `ClusterManager.livenessChecks` : how many checks a decision makes.
* `ClusterManager.PrimaryLapses` : the primary crosses its timeout during a decision.

## Main results

* `ClusterManager.routes_to_live_owner_iff` : when a decision finds a live owner.
* `ClusterManager.removal_agrees_with_failover` : what removing a dead member does to routing.
-/

namespace DistributedCache

open Library

namespace ClusterManager

section Hash

variable (hashToInt : String → ℕ)

/-- The number of calls of `is_alive` in `route_for_key`; call `i` reads `clock i`. -/
def livenessChecks (m : ClusterManager) (clock : Clock) (key : String) : ℕ :=
  match m.ring.getNode hashToInt key with
  | none => 0
  | some primary =>
    let replica := m.ring.getSuccessorForKey hashToInt key (some primary.nodeId)
    let servedBy := if m.isAlive (clock 0) primary.nodeId then some primary else replica
    match servedBy with
    | none => 1
    | some node => if m.isAlive (clock 1) node.nodeId then 2 else 3

/-- The primary of the key is alive at the first reading and not at the second, and the replica
is alive at all three. -/
def PrimaryLapses (m : ClusterManager) (clock : Clock) (key : String) : Prop :=
  ∃ p q, m.ring.ownerPair hashToInt key = (some p, some q) ∧
    m.isAlive (clock 0) p.nodeId = true ∧ m.isAlive (clock 1) p.nodeId = false ∧
    ∀ i < 3, m.isAlive (clock i) q.nodeId = true

end Hash

variable {hashToInt : String → ℕ} {m : ClusterManager} {clock : Clock} {key : String}

/-- A node that is not alive is not alive later. -/
theorem isAlive_eq_false_of_le {now now' : Time} {nodeId : String}
    (h : m.isAlive now nodeId = false) (hle : now ≤ now') : m.isAlive now' nodeId = false := by
  rw [isAlive] at h ⊢
  cases hseen : m.lastHeartbeat nodeId with
  | none => rfl
  | some lastSeen =>
    rw [hseen] at h
    refine decide_eq_false fun hlate => of_decide_eq_false h ?_
    exact (sub_le_sub_right hle lastSeen).trans hlate

@[simp] theorem primary_routeForKey (m : ClusterManager) (clock : Clock) (key : String) :
    (m.routeForKey hashToInt clock key).primary = (m.ring.ownerPair hashToInt key).1 := by
  rw [routeForKey, ConsistentHashRing.ownerPair]
  cases m.ring.getNode hashToInt key with
  | none => rfl
  | some p =>
    dsimp only
    split
    · rfl
    · split_ifs <;> rfl

/-! ### A clock that moves during a decision -/

/-- The node that serves a key was alive at the check that chose it. -/
theorem exists_alive_of_servedBy {node : NodeConfig}
    (h : (m.routeForKey hashToInt clock key).servedBy = some node) :
    ∃ i < m.livenessChecks hashToInt clock key, m.isAlive (clock i) node.nodeId = true := by
  rw [routeForKey] at h
  rw [livenessChecks]
  cases hget : m.ring.getNode hashToInt key with
  | none =>
    rw [hget] at h
    cases h
  | some p =>
    rw [hget] at h
    dsimp only at h ⊢
    cases hchosen : (if m.isAlive (clock 0) p.nodeId then some p
        else m.ring.getSuccessorForKey hashToInt key (some p.nodeId)) with
    | none =>
      rw [hchosen] at h
      cases h
    | some chosen =>
      rw [hchosen] at h
      dsimp only at h ⊢
      split_ifs at h ⊢ with hfirst hthird
      · exact ⟨1, by decide, Option.some.inj h ▸ hfirst⟩
      · exact ⟨2, by decide, Option.some.inj h ▸ hthird⟩

/-- A decision in which the primary lapses serves the key from no node. -/
theorem PrimaryLapses.servedBy_eq_none (hclock : Monotone clock)
    (h : m.PrimaryLapses hashToInt clock key) :
    (m.routeForKey hashToInt clock key).servedBy = none := by
  obtain ⟨p, q, hpair, hfirst, hsecond, -⟩ := h
  have hthird := isAlive_eq_false_of_le hsecond (hclock (by decide : 1 ≤ 2))
  have hget : m.ring.getNode hashToInt key = some p := by
    rw [ConsistentHashRing.getNode_eq_head?, ← ConsistentHashRing.fst_ownerPair, hpair]
  rw [routeForKey, hget]
  dsimp only
  rw [if_pos hfirst]
  dsimp only
  rw [hsecond, hthird]
  rfl

/-- A decision in which the replica is alive throughout finds a node, unless the primary lapses. -/
theorem servedBy_ne_none {q : NodeConfig} (hreplica : (m.ring.ownerPair hashToInt key).2 = some q)
    (halive : ∀ i < m.livenessChecks hashToInt clock key, m.isAlive (clock i) q.nodeId = true)
    (h : ¬m.PrimaryLapses hashToInt clock key) :
    (m.routeForKey hashToInt clock key).servedBy ≠ none := by
  rw [livenessChecks] at halive
  rw [routeForKey]
  cases hget : m.ring.getNode hashToInt key with
  | none =>
    rw [ConsistentHashRing.ownerPair, hget] at hreplica
    cases hreplica
  | some p =>
    rw [hget] at halive
    have hpair : m.ring.ownerPair hashToInt key = (some p, some q) := by
      rw [← hreplica, ConsistentHashRing.ownerPair, hget]
    rw [ConsistentHashRing.ownerPair, hget] at hreplica
    dsimp only at hreplica halive ⊢
    rw [hreplica] at halive ⊢
    cases hfirst : m.isAlive (clock 0) p.nodeId with
    | true =>
      rw [hfirst] at halive
      simp only [if_true] at halive ⊢
      cases hsecond : m.isAlive (clock 1) p.nodeId with
      | true => simp
      | false =>
        -- all three checks were made, so the replica was alive at each
        simp only [hsecond, Bool.false_eq_true, if_false] at halive
        exact absurd ⟨p, q, hpair, hfirst, hsecond, halive⟩ h
    | false =>
      rw [hfirst] at halive
      simp only [Bool.false_eq_true, if_false] at halive ⊢
      have hsecond : m.isAlive (clock 1) q.nodeId = true := by
        refine halive 1 ?_
        split_ifs <;> decide
      simp [hsecond]

/-- **When a routing decision finds a live owner.** The clock does not go back during the
decision. The decision finds a node whenever the replica is alive at every reading that it takes,
and the node that it finds was alive at one of these readings: that holds exactly unless the
primary is alive at the first reading and not at the second while the replica is alive at all
three. -/
theorem routes_to_live_owner_iff (hclock : Monotone clock) :
    ((∀ q, (m.routeForKey hashToInt clock key).replica = some q →
        (∀ i < m.livenessChecks hashToInt clock key, m.isAlive (clock i) q.nodeId = true) →
        (m.routeForKey hashToInt clock key).servedBy ≠ none) ∧
      ∀ node, (m.routeForKey hashToInt clock key).servedBy = some node →
        ∃ i < m.livenessChecks hashToInt clock key, m.isAlive (clock i) node.nodeId = true) ↔
    ¬m.PrimaryLapses hashToInt clock key := by
  constructor
  · rintro ⟨hfinds, -⟩ hlapses
    have hnone := hlapses.servedBy_eq_none hclock
    obtain ⟨p, q, hpair, -, -, halive⟩ := hlapses
    refine hfinds q (by rw [replica_routeForKey, hpair]) (fun i hi => halive i ?_) hnone
    refine lt_of_lt_of_le hi ?_
    rw [livenessChecks]
    split
    · decide
    · dsimp only
      split
      · decide
      · split_ifs <;> decide
  · intro h
    refine ⟨fun q hq halive => servedBy_ne_none ?_ halive h, fun node => exists_alive_of_servedBy⟩
    rwa [replica_routeForKey] at hq

/-- The nodes `"a"` and `"b"` with their last heartbeats at times 0 and 4; a key has the primary
`"a"` and the replica `"b"`. -/
def sampleRouting : ClusterManager :=
  (sampleCluster ["a", "b"]).manager.recordHeartbeat 4 "b"

theorem sampleRouting_reachable : sampleRouting.Reachable sampleHash Set.univ :=
  (sampleCluster_reachable ["a", "b"]).recordHeartbeat 4 "b"

/-- `routes_to_live_owner_iff` where the primary is not alive at any reading. -/
theorem routes_to_live_owner_iff_primary_dead :
    (sampleRouting.routeForKey sampleHash (fun _ => 8) "k").servedBy ≠ none := by
  have hnot : ¬sampleRouting.PrimaryLapses sampleHash (fun _ => 8) "k" := by
    rintro ⟨p, q, -, hfirst, hsecond, -⟩
    cases hfirst.symm.trans hsecond
  have hreplica : (sampleRouting.routeForKey sampleHash (fun _ => 8) "k").replica =
      some (sampleNode "b") := by
    decide +kernel
  have halive : sampleRouting.isAlive 8 "b" = true := by decide +kernel
  exact ((routes_to_live_owner_iff monotone_const).mpr hnot).1 _ hreplica fun _ _ => halive

/-- The primary is chosen at time 5 and is not alive any more at time 6, while the replica is
alive at both times. -/
theorem routing_gives_up :
    let clock : Clock := fun i => if i = 0 then 5 else 6
    sampleRouting.Reachable sampleHash Set.univ ∧ Monotone clock ∧
      (sampleRouting.routeForKey sampleHash clock "k").replica = some (sampleNode "b") ∧
      (∀ i, sampleRouting.isAlive (clock i) "b" = true) ∧
      (sampleRouting.routeForKey sampleHash clock "k").servedBy = none := by
  intro clock
  refine ⟨sampleRouting_reachable, ?_, by decide +kernel, fun i => ?_, by decide +kernel⟩
  · refine monotone_nat_of_le_succ fun i => ?_
    change (if i = 0 then (5 : ℚ) else 6) ≤ 6
    split_ifs <;> decide +kernel
  · change sampleRouting.isAlive (if i = 0 then 5 else 6) "b" = true
    split_ifs <;> decide +kernel

/-! ### Removing a member that is not alive -/

/-- Removing a member that is not alive changes the liveness of no node. -/
theorem isAlive_removeNode {now : Time} {nodeId : String} (hdead : m.isAlive now nodeId = false)
    (id : String) : (m.removeNode nodeId).isAlive now id = m.isAlive now id := by
  by_cases hid : id = nodeId
  · subst hid
    rw [hdead]
    simp [isAlive, removeNode]
  · simp [isAlive, removeNode, Function.update_of_ne hid]

/-- With one reading for all checks the primary serves a key if it is alive, and else the replica
if that is alive. -/
theorem servedBy_routeForKey_const (m : ClusterManager) (now : Time) (key : String) :
    (m.routeForKey hashToInt (fun _ => now) key).servedBy =
      ((m.ring.ownerPair hashToInt key).1.filter fun p => m.isAlive now p.nodeId).or
        ((m.ring.ownerPair hashToInt key).2.filter fun q => m.isAlive now q.nodeId) := by
  have hhead : ∀ owner : Option NodeConfig,
      (owner.toList.filter fun x => m.isAlive now x.nodeId).head? =
        owner.filter fun x => m.isAlive now x.nodeId := by
    intro owner
    cases owner with
    | none => rfl
    | some x => cases hx : m.isAlive now x.nodeId <;> simp [Option.filter_some, hx]
  have hsteady : ∀ node ∈ m.ring.owners hashToInt key,
      m.AliveThroughout (fun _ => now) node.nodeId (m.isAlive now node.nodeId) :=
    fun _ _ _ => rfl
  rw [servedBy_routeForKey hsteady, liveOwners, ConsistentHashRing.owners, List.filter_append,
    List.head?_append, hhead, hhead]

/-- A node that serves a key still serves it after a member that is not alive was removed. -/
theorem servedBy_removeNode {now : Time} {nodeId : String}
    (hdead : m.isAlive now nodeId = false) {node : NodeConfig}
    (h : (m.routeForKey hashToInt (fun _ => now) key).servedBy = some node) :
    ((m.removeNode nodeId).routeForKey hashToInt (fun _ => now) key).servedBy = some node := by
  have hring : (m.removeNode nodeId).ring = m.ring.removeNode nodeId := rfl
  rw [servedBy_routeForKey_const] at h ⊢
  simp only [isAlive_removeNode hdead, hring]
  rcases hpair : m.ring.ownerPair hashToInt key with ⟨p, q⟩
  rw [hpair] at h
  have hne : ∀ {x : NodeConfig}, m.isAlive now x.nodeId = true → x.nodeId ≠ nodeId := by
    rintro x halive rfl
    cases halive.symm.trans hdead
  rcases Option.or_eq_some_iff.mp h with h | ⟨hp, hq⟩
  · -- the primary serves the key and stays the primary
    obtain ⟨rfl, halive⟩ := Option.filter_eq_some_iff.mp h
    rw [ConsistentHashRing.fst_ownerPair_removeNode_of_ne hpair (hne halive),
      Option.filter_some, if_pos halive, Option.some_or]
  · obtain ⟨rfl, halive⟩ := Option.filter_eq_some_iff.mp hq
    obtain ⟨p, rfl⟩ : ∃ x, p = some x := by
      rw [ConsistentHashRing.ownerPair] at hpair
      cases hget : m.ring.getNode hashToInt key with
      | none => rw [hget] at hpair; cases hpair
      | some x => rw [hget] at hpair; exact ⟨x, (Prod.mk.inj hpair).1.symm⟩
    by_cases hremoved : p.nodeId = nodeId
    · -- the replica takes the place of the primary
      rw [ConsistentHashRing.fst_ownerPair_removeNode_of_eq hpair hremoved,
        Option.filter_some, if_pos halive, Option.some_or]
    · have hstays : ∀ x ∈ some node, x.nodeId ≠ nodeId := fun x hx =>
        Option.some.inj hx ▸ hne halive
      rw [ConsistentHashRing.ownerPair_removeNode_of_ne hpair hremoved hstays]
      exact h

/-- **Failover and removal agree.** With one reading of the clock for both decisions: the node
that serves a key still serves it after a member that is not alive was removed. Where that member
is the primary of the key and the replica is alive, the replica served the key before, and it is
the primary and serves the key after it. -/
theorem removal_agrees_with_failover {now : Time} {nodeId : String}
    (hdead : m.isAlive now nodeId = false) (key : String) :
    (∀ p q, m.ring.ownerPair hashToInt key = (some p, some q) → p.nodeId = nodeId →
      m.isAlive now q.nodeId = true →
      (m.routeForKey hashToInt (fun _ => now) key).servedBy = some q ∧
        ((m.removeNode nodeId).routeForKey hashToInt (fun _ => now) key).primary = some q ∧
        ((m.removeNode nodeId).routeForKey hashToInt (fun _ => now) key).servedBy = some q) ∧
    ∀ node, (m.routeForKey hashToInt (fun _ => now) key).servedBy = some node →
      ((m.removeNode nodeId).routeForKey hashToInt (fun _ => now) key).servedBy = some node := by
  refine ⟨fun p q hpair hp hq => ?_, fun node => servedBy_removeNode hdead⟩
  have hserved : (m.routeForKey hashToInt (fun _ => now) key).servedBy = some q := by
    rw [servedBy_routeForKey_const, hpair]
    simp [Option.filter_some, hp, hdead, hq]
  refine ⟨hserved, ?_, servedBy_removeNode hdead hserved⟩
  rw [primary_routeForKey]
  exact ConsistentHashRing.fst_ownerPair_removeNode_of_eq hpair hp

/-- `removal_agrees_with_failover` where the primary is removed. -/
theorem removal_agrees_with_failover_primary :
    ((sampleRouting.removeNode "a").routeForKey sampleHash (fun _ => 8) "k").servedBy =
      some (sampleNode "b") :=
  (removal_agrees_with_failover (by decide +kernel) "k").2 _ (by decide +kernel)

end ClusterManager

end DistributedCache
