import DistributedCache.Cluster.Calls
import DistributedCache.Cluster.Copies

/-!
# Reading back what was put

A store signals a missing key by `None`, the value that a JSON `null` is stored as. So the value
of a put is read back by the next get exactly when it is not `null`: a stored `null` is reported
as a missing key, unless the other owner has an older value, which is answered instead.

## Main results

* `DistributedCacheCluster.reads_back_iff` : when a get answers what was put.
* `DistributedCacheCluster.null_not_read_back` : a stored `null` reads as missing.
-/

namespace DistributedCache

open Library

variable {V : Type*} {hashToInt : String → ℕ}

namespace DistributedCacheCluster

variable {c c' : DistributedCacheCluster V} {clock clock' : Clock} {alive : String → Bool}
  {key : String} {value : Option V} {r : Response V}

/-- A get that is served by a node with an unexpired copy answers its value, if it has one. -/
theorem get_of_lookup {target : NodeConfig}
    (hserved : (c.manager.routeForKey hashToInt clock key).servedBy = some target)
    (hanswers : c.transport.Answers target.nodeId) {entry : CacheEntry V}
    (hentry : c.transport.lookup target.nodeId key = some entry)
    (hlive : entry.isExpired (clock 3) = false) {v : V} (hvalue : entry.value = some v) :
    (c.get hashToInt clock key).1 = some
      { ok := true, statusCode := 200, value := some (some v), servedBy := some target.nodeId } := by
  have hlive' : entry.isExpired (clock.after 3 0) = false := hlive
  obtain ⟨transport, hget⟩ := NodeTransport.get_of_lookup hanswers hentry hlive'
  rw [hvalue, Option.isSome_some] at hget
  simp only [get, hserved, hget]

/-- **A value is read back if it is not `null`.** A put without a lifetime returned ok. Then the
next get answers the value that was put exactly when this is not `null`, as long as the owners of
the key stay alive and dead as they were, whichever of them are alive. -/
theorem reads_back_iff (hsteady : c.manager.Steady hashToInt clock alive key)
    (hput : c.put hashToInt clock key value none = (some r, c')) (hok : r.ok = true)
    (hsteady' : c'.manager.Steady hashToInt clock' alive key) :
    (∃ r', (c'.get hashToInt clock' key).1 = some r' ∧ r'.ok = true ∧ r'.value = some value) ↔
      value ≠ none := by
  constructor
  · rintro ⟨r', hget, -, hvalue⟩ hnull
    obtain ⟨n, entry, i, v, -, -, -, hv⟩ := found_of_get hget hvalue
    cases hnull.symm.trans hv
  · intro hnull
    obtain ⟨v, rfl⟩ := Option.ne_none_iff_exists'.mp hnull
    rcases put_cases hput with ⟨-, rfl, -⟩ | ⟨target, result, transport, hserved, hanswer, -, rfl⟩
    · cases hok
    · have hsame : ((c.manager.recordHeartbeat (clock 5) target.nodeId).routeForKey hashToInt clock'
          key).servedBy = some target := by
        rw [ClusterManager.servedBy_routeForKey hsteady', ← hserved,
          ClusterManager.servedBy_routeForKey hsteady, ClusterManager.liveOwners,
          ClusterManager.liveOwners, ClusterManager.ring_recordHeartbeat]
      have hentry := NodeTransport.lookup_put_self hanswer
      exact ⟨_, get_of_lookup hsame (NodeTransport.answers_of_put hanswer) hentry rfl rfl, rfl, rfl⟩

/-- `reads_back_iff` where only the second owner is alive. -/
theorem reads_back_iff_replica_alive :
    let c := ((sampleCluster ["a", "b"]).heartbeat (fun _ => 4) "b").2
    let p := c.put sampleHash (fun _ => 8) "k" (some 1) none
    ∃ r', (p.2.get sampleHash (fun _ => 8) "k").1 = some r' ∧ r'.ok = true ∧
      r'.value = some (some 1) := by
  intro c p
  let alive : String → Bool := fun nodeId => decide (nodeId = "b")
  have hput : c.put sampleHash (fun _ => 8) "k" (some 1) none =
      (some { ok := true, statusCode := 200, servedBy := some "b" }, p.2) :=
    Prod.ext (by decide +kernel) rfl
  have halive : ∀ node ∈ c.manager.ring.owners sampleHash "k",
      c.manager.isAlive 8 node.nodeId = alive node.nodeId := by decide +kernel
  have halive' : ∀ node ∈ p.2.manager.ring.owners sampleHash "k",
      p.2.manager.isAlive 8 node.nodeId = alive node.nodeId := by decide +kernel
  have hsteady : c.manager.Steady sampleHash (fun _ => 8) alive "k" :=
    fun node hnode _ => halive node hnode
  exact (reads_back_iff hsteady hput rfl fun node hnode _ => halive' node hnode).mpr (by decide)

/-- A stored `null` is reported as a missing key. -/
theorem null_not_read_back :
    let c := sampleCluster ["a", "b"]
    ∃ c' r, c.put sampleHash (fun _ => 0) "k" none none = (some r, c') ∧ r.ok = true ∧
      c'.transport.lookup "a" "k" = some ⟨none, none⟩ ∧
      (c'.get sampleHash (fun _ => 0) "k").1 =
        some { ok := false, statusCode := 404, message := some "not found" } := by
  intro c
  have hput : c.put sampleHash (fun _ => 0) "k" none none =
      (some { ok := true, statusCode := 200, servedBy := some "a" },
        (c.put sampleHash (fun _ => 0) "k" none none).2) := Prod.ext (by decide +kernel) rfl
  exact ⟨_, _, hput, rfl, by decide +kernel, by decide +kernel⟩

end DistributedCacheCluster

end DistributedCache
