import DistributedCache.Cluster.Copies
import DistributedCache.Library.Run

/-!
# Deadlines

A put with a lifetime gives the serving node a copy that ends at the deadline. The replica write
and the writes of a rebalance carry a lifetime, not a deadline, and count it from the moment at
which they take effect: a write that takes effect late gives its node a copy that lives on after
the deadline, and a get falls back on it. Without such writes no copy outlives the deadline.

## Main definitions

* `CacheEntry.EndsBy` : an entry ends by a deadline.
* `DistributedCacheCluster.BringsNoLater` : no copy of the value that an event brings ends later.

## Main results

* `DistributedCacheCluster.deadline_holds` : then no get answers the value after the deadline.
* `DistributedCacheCluster.deadline_missed` : a replica write that takes effect late.
-/

namespace DistributedCache

open Library

variable {V : Type*} {hashToInt : String → ℕ}

/-- The entry has a lifetime that is over at the deadline. -/
def CacheEntry.EndsBy (entry : CacheEntry V) (deadline : Time) : Prop :=
  ∃ expiresAt, entry.expiresAt = some expiresAt ∧ expiresAt ≤ deadline

theorem CacheEntry.EndsBy.isExpired {entry : CacheEntry V} {deadline now : Time}
    (h : entry.EndsBy deadline) (hle : deadline ≤ now) : entry.isExpired now = true := by
  obtain ⟨expiresAt, hexpires, hends⟩ := h
  rw [CacheEntry.isExpired, hexpires]
  exact decide_eq_true (hends.trans hle)

theorem CacheStore.endsBy_putEntry {now : Time} {value : Option V} {ttlSeconds : Time}
    {entry : CacheEntry V} (h : putEntry now value (some ttlSeconds) = some entry) :
    entry.EndsBy (now + ttlSeconds) := by
  rw [putEntry] at h
  split_ifs at h
  obtain rfl := Option.some.inj h
  exact ⟨_, rfl, le_rfl⟩

namespace DistributedCacheCluster

/-- Every copy of the value that a node has for the key ends by the deadline. -/
def EndsEverywhere (key : String) (v : V) (deadline : Time) (c : DistributedCacheCluster V) :
    Prop :=
  ∀ n entry, c.transport.lookup n key = some entry → entry.value = some v → entry.EndsBy deadline

/-- The event is no put of the key, and every copy of the value that it brings to a node ends by
the deadline. -/
def BringsNoLater (hashToInt : String → ℕ) (key : String) (v : V) (deadline : Time)
    (c : DistributedCacheCluster V) (e : Event V) : Prop :=
  (∀ clock value ttlSeconds, e ≠ .call clock (.put key value ttlSeconds)) ∧
  ∀ n entry, c.Arrives hashToInt key e n entry → entry.value = some v → entry.EndsBy deadline

variable {c c' : DistributedCacheCluster V} {key : String} {v : V} {deadline : Time}

theorem EndsEverywhere.step (h : c.EndsEverywhere key v deadline) {e : Event V}
    (he : c.BringsNoLater hashToInt key v deadline e) (hstep : c.step hashToInt e = some c') :
    c'.EndsEverywhere key v deadline := by
  intro n entry hentry hvalue
  rcases lookup_of_step hstep hentry with hold | hnew
  · exact h n entry hold hvalue
  · exact he.2 n entry hnew hvalue

/-- No get answers a value whose copies have all ended. -/
theorem EndsEverywhere.get_ne (h : c.EndsEverywhere key v deadline) {clock : Clock}
    (hlate : ∀ i, deadline ≤ clock i) {r : Response V}
    (hget : (c.get hashToInt clock key).1 = some r) : r.value ≠ some (some v) := by
  intro hvalue
  obtain ⟨n, entry, i, v', hentry, hlive, hv', heq⟩ := found_of_get hget hvalue
  obtain rfl := Option.some.inj heq
  have hexpired := (h n entry hentry hv').isExpired (hlate i)
  cases hlive.symm.trans hexpired

/-- **Deadlines hold.** Let a put of `v` with the lifetime `ttlSeconds` return by `t`, when the
other nodes have no copy of `v` for the key that lasts beyond `t + ttlSeconds`. Then, along every
run in which the key is not put again and no event brings a node such a copy, no get at
`t + ttlSeconds` or later answers `v`. -/
theorem deadline_holds {clock : Clock} {ttlSeconds t : Time} {r : Response V}
    (hput : c.put hashToInt clock key (some v) (some ttlSeconds) = (some r, c'))
    (hreturn : ∀ i, clock i ≤ t)
    (hothers : ∀ n entry,
      (c.manager.routeForKey hashToInt clock key).servedBy.map NodeConfig.nodeId ≠ some n →
      c.transport.lookup n key = some entry → entry.value = some v →
      entry.EndsBy (t + ttlSeconds))
    {es : List (Event V)} {d : DistributedCacheCluster V}
    (hrun : Run (fun c e c' => c.BringsNoLater hashToInt key v (t + ttlSeconds) e ∧
      c.step hashToInt e = some c') c' es d)
    {clock' : Clock} (hlate : ∀ i, t + ttlSeconds ≤ clock' i) {r' : Response V}
    (hget : (d.get hashToInt clock' key).1 = some r') : r'.value ≠ some (some v) := by
  have hafter : c'.EndsEverywhere key v (t + ttlSeconds) := by
    intro n entry hentry hvalue
    rcases put_cases hput with ⟨hnone, -, rfl⟩ | ⟨target, result, transport, hserved, hanswer, -, rfl⟩
    · exact hothers n entry (by rw [hnone]; simp) hentry hvalue
    · by_cases hn : n = target.nodeId
      · subst hn
        have hself := NodeTransport.lookup_put_self hanswer
        obtain ⟨expiresAt, hexpires, hle⟩ :=
          CacheStore.endsBy_putEntry (hself.symm.trans hentry)
        exact ⟨expiresAt, hexpires, hle.trans (add_le_add_left (hreturn 3) ttlSeconds)⟩
      · refine hothers n entry ?_ ?_ hvalue
        · rw [hserved]
          exact fun heq => hn (Option.some.inj heq).symm
        · exact (NodeTransport.lookup_of_put hanswer hentry).resolve_right fun hnew => hn hnew.1
  exact (hrun.invariant (fun _ _ _ h hstep => h.step hstep.1 hstep.2) hafter).get_ne hlate hget

/-- `deadline_holds` where the replica write takes effect at the reading of the put. -/
theorem deadline_holds_prompt_write :
    let c := sampleCluster ["a", "b"]
    ∃ c' d r, c.put sampleHash (fun _ => 0) "k" (some 1) (some 3) = (some r, c') ∧
      c'.step sampleHash (.background (.replicate 0 (fun _ => 0) .carriedOut)) = some d ∧
      ∀ r', (d.get sampleHash (fun _ => 3) "k").1 = some r' → r'.value ≠ some (some 1) := by
  intro c
  let c' := (c.put sampleHash (fun _ => 0) "k" (some 1) (some 3)).2
  have hwrites : c'.replicaWrites = [⟨sampleNode "b", "k", some 1, some 3⟩] := by decide +kernel
  have hput : c.put sampleHash (fun _ => 0) "k" (some 1) (some 3) =
      (some { ok := true, statusCode := 200, servedBy := some "a" }, c') :=
    Prod.ext (by decide +kernel) rfl
  have hsome : (c'.step sampleHash
      (.background (.replicate 0 (fun _ => 0) .carriedOut))).isSome := by decide +kernel
  obtain ⟨d, hd⟩ := Option.isSome_iff_exists.mp hsome
  have hbrings : c'.BringsNoLater sampleHash "k" 1 (0 + 3)
      (.background (.replicate 0 (fun _ => 0) .carriedOut)) := by
    refine ⟨fun clock value ttlSeconds h => (by cases h), fun n entry harrives _ => ?_⟩
    cases harrives with
    | replicate hw hkey hentry hanswers =>
      rw [hwrites] at hw
      obtain rfl := Option.some.inj hw
      exact CacheStore.endsBy_putEntry hentry
  refine ⟨c', d, _, hput, hd, fun r' hget => ?_⟩
  refine deadline_holds hput (fun _ => le_rfl) (fun n entry _ hentry => ?_)
    (.single ⟨hbrings, hd⟩) (fun _ => (zero_add 3).le) hget
  rw [sampleCluster_lookup] at hentry
  cases hentry

/-- The replica write of a put with a lifetime of 3 seconds takes effect after 1 second: when the
3 seconds are over, the serving node has dropped its copy, and a get answers that of the other
owner. -/
theorem deadline_missed :
    let c := sampleCluster ["a", "b"]
    ∃ c' d r, c.put sampleHash (fun _ => 0) "k" (some 1) (some 3) = (some r, c') ∧ r.ok = true ∧
      c'.step sampleHash (.background (.replicate 0 (fun _ => 1) .carriedOut)) = some d ∧
      (d.get sampleHash (fun _ => 3) "k").1 =
        some { ok := true, statusCode := 200, value := some (some 1), servedBy := some "b" } := by
  intro c
  let c' := (c.put sampleHash (fun _ => 0) "k" (some 1) (some 3)).2
  have hlate : ((c'.step sampleHash (.background (.replicate 0 (fun _ => 1) .carriedOut))).any
      fun d => decide ((d.get sampleHash (fun _ => 3) "k").1 =
        some { ok := true, statusCode := 200, value := some (some 1), servedBy := some "b" })) =
      true := by decide +kernel
  obtain ⟨d, hd, hget⟩ := (Option.any_eq_true _ _).mp hlate
  have hput : c.put sampleHash (fun _ => 0) "k" (some 1) (some 3) =
      (some { ok := true, statusCode := 200, servedBy := some "a" }, c') :=
    Prod.ext (by decide +kernel) rfl
  exact ⟨c', d, _, hput, rfl, hd, of_decide_eq_true hget⟩

end DistributedCacheCluster

end DistributedCache
