import DistributedCache.Cluster.RingHistory
import DistributedCache.Library.Clockwise

/-!
# What the ring answers

The lookups of the ring are stated here without their searches. From the position of a key the
virtual nodes are met in clockwise order: those above it first, then, from the bottom again, the
others. `get_node` answers the owner of the first one, `get_successor_for_key` the owner of the
first one whose id is not the excluded one. Without collisions the primary and the replica of a
key are then the first two members that are met.

Source: `distributed_cache/cluster/consistent_hash.py`.

## Main definitions

* `ConsistentHashRing.visited` : the positions in the order of the scan.
* `ConsistentHashRing.OwnsNext`, `ConsistentHashRing.OwnsNextOther` : the answers of the lookups.
* `ComesBefore` : one id is met before another.

## Main results

* `ConsistentHashRing.getNode_eq_some_iff`, `ConsistentHashRing.getSuccessorForKey_eq_some_iff`.
* `ConsistentHashRing.lookup_exact` : the lookups of every ring that is built by changes.
-/

namespace DistributedCache

open Library

/-- Going clockwise from the position of the key, some virtual node of `a` is met before all
those of `b`. -/
def ComesBefore (hashToInt : String → ℕ) (replicas : ℕ) (key a b : String) : Prop :=
  ∃ i < replicas, ∀ j < replicas,
    clockwiseKey (hashToInt key) (hashToInt (vnodeLabel a i)) <
      clockwiseKey (hashToInt key) (hashToInt (vnodeLabel b j))

namespace ConsistentHashRing

section Hash

variable (hashToInt : String → ℕ)

/-- The positions that `get_successor_for_key` looks at, one after another. -/
def visited (r : ConsistentHashRing) (key : String) : List ℕ :=
  (List.range r.sortedKeys.length).filterMap fun offset =>
    r.sortedKeys[(r.startIndex hashToInt key + offset) % r.sortedKeys.length]?

/-- The node owns the least position above that of the key, or the least one of all when there is
none above it. -/
def OwnsNext (r : ConsistentHashRing) (key : String) (node : NodeConfig) : Prop :=
  ∃ position, r.ring.get? position = some node ∧
    (IsLeast {p | p ∈ r.ring ∧ hashToInt key < p} position ∨
      (∀ p ∈ r.ring, p ≤ hashToInt key) ∧ IsLeast {p | p ∈ r.ring} position)

/-- The node owns the first position, clockwise from that of the key, whose owner does not have
the excluded id. -/
def OwnsNextOther (r : ConsistentHashRing) (key : String) (excludeNodeId : Option String)
    (node : NodeConfig) : Prop :=
  ∃ position, r.ring.get? position = some node ∧ excludeNodeId ≠ some node.nodeId ∧
    ∀ p other, r.ring.get? p = some other → excludeNodeId ≠ some other.nodeId →
      clockwiseKey (hashToInt key) position ≤ clockwiseKey (hashToInt key) p

/-- The owners of a key are the first two members clockwise, as far as there are two. -/
structure LedByOwners (r : ConsistentHashRing) (key : String) : Prop where
  isSome_primary : (r.ownerPair hashToInt key).1.isSome ↔ ∃ m, m ∈ r.nodes
  isSome_replica : (r.ownerPair hashToInt key).2.isSome ↔ ∃ m ∈ r.nodes, ∃ n ∈ r.nodes, m ≠ n
  primary : ∀ p, (r.ownerPair hashToInt key).1 = some p → r.nodes.get? p.nodeId = some p ∧
    ∀ m ∈ r.nodes, m ≠ p.nodeId → ComesBefore hashToInt r.replicas key p.nodeId m
  replica : ∀ p q, r.ownerPair hashToInt key = (some p, some q) →
    r.nodes.get? q.nodeId = some q ∧ q.nodeId ≠ p.nodeId ∧ ∀ m ∈ r.nodes, m ≠ p.nodeId →
      m ≠ q.nodeId → ComesBefore hashToInt r.replicas key q.nodeId m

end Hash

variable {hashToInt : String → ℕ} {r : ConsistentHashRing} {key : String}

/-! ### The lookups -/

/-- The virtual nodes in clockwise order. -/
private def clockwiseVnodes (hashToInt : String → ℕ) (r : ConsistentHashRing) (key : String) :
    List (ℕ × NodeConfig) :=
  r.virtualNodes.filter (fun p => hashToInt key < p.1) ++
    r.virtualNodes.filter fun p => p.1 ≤ hashToInt key

private theorem mem_clockwiseVnodes {p : ℕ × NodeConfig} :
    p ∈ clockwiseVnodes hashToInt r key ↔ r.ring.get? p.1 = some p.2 := by
  rw [clockwiseVnodes, List.mem_append, List.mem_filter, List.mem_filter, ← and_or_left,
    decide_eq_true_iff, decide_eq_true_iff, mem_virtualNodes]
  exact and_iff_left (lt_or_ge _ _)

private theorem pairwise_clockwiseVnodes : (clockwiseVnodes hashToInt r key).Pairwise fun p q =>
    clockwiseKey (hashToInt key) p.1 < clockwiseKey (hashToInt key) q.1 := by
  rw [clockwiseVnodes, List.pairwise_append]
  have hsorted := r.pairwise_virtualNodes
  refine ⟨?_, ?_, fun p hp q hq => ?_⟩
  · refine (hsorted.filter _).imp_of_mem fun {p q} hp hq hlt => ?_
    have hp' := of_decide_eq_true (List.mem_filter.mp hp).2
    have hq' := of_decide_eq_true (List.mem_filter.mp hq).2
    exact (clockwiseKey_lt_iff_of_iff (iff_of_true hp' hq')).mpr hlt
  · refine (hsorted.filter _).imp_of_mem fun {p q} hp hq hlt => ?_
    have hp' := of_decide_eq_true (List.mem_filter.mp hp).2
    have hq' := of_decide_eq_true (List.mem_filter.mp hq).2
    exact (clockwiseKey_lt_iff_of_iff (iff_of_false hp'.not_gt hq'.not_gt)).mpr hlt
  · exact clockwiseKey_lt_of_lt (of_decide_eq_true (List.mem_filter.mp hp).2)
      (of_decide_eq_true (List.mem_filter.mp hq).2)

private theorem filterMap_range_getElem? {α : Type*} (l : List α) :
    ((List.range l.length).filterMap fun i => l[i]?) = l := by
  induction l with
  | nil => rfl
  | cons a l ih =>
    rw [List.length_cons, List.range_succ_eq_map, List.filterMap_cons, List.getElem?_cons_zero,
      List.filterMap_map]
    exact congrArg (a :: ·) ih

/-- The scan goes around once. -/
theorem visited_eq_rotate : r.visited hashToInt key =
    r.sortedKeys.rotate (r.startIndex hashToInt key) := by
  have hindex : ∀ offset ∈ List.range r.sortedKeys.length,
      r.sortedKeys[(r.startIndex hashToInt key + offset) % r.sortedKeys.length]? =
        (r.sortedKeys.rotate (r.startIndex hashToInt key))[offset]? := by
    intro offset hoffset
    rw [List.getElem?_rotate (List.mem_range.mp hoffset), Nat.add_comm]
  rw [visited, List.filterMap_congr hindex]
  conv_lhs => rw [← List.length_rotate r.sortedKeys (r.startIndex hashToInt key)]
  exact filterMap_range_getElem? _

theorem mem_visited {position : ℕ} : position ∈ r.visited hashToInt key ↔ position ∈ r.ring := by
  rw [visited_eq_rotate, List.mem_rotate, mem_sortedKeys]

/-- The scan visits the positions in clockwise order. -/
theorem pairwise_visited : (r.visited hashToInt key).Pairwise fun a b =>
    clockwiseKey (hashToInt key) a < clockwiseKey (hashToInt key) b := by
  rw [visited_eq_rotate, rotate_startIndex, List.pairwise_map]
  exact pairwise_clockwiseVnodes

theorem getSuccessorForKey_eq_some_iff {excludeNodeId : Option String} {node : NodeConfig} :
    r.getSuccessorForKey hashToInt key excludeNodeId = some node ↔
      r.OwnsNextOther hashToInt key excludeNodeId node := by
  rw [getSuccessorForKey_eq_find?, clockwise, List.find?_map, Option.map_eq_some_iff]
  constructor
  · rintro ⟨⟨position, node⟩, hfind, rfl⟩
    obtain ⟨hmem, hid, hfirst⟩ := (find?_eq_some_iff_of_pairwise pairwise_clockwiseVnodes).mp hfind
    refine ⟨position, mem_clockwiseVnodes.mp hmem, by simpa using hid, fun p other hp hother => ?_⟩
    exact hfirst (p, other) (mem_clockwiseVnodes.mpr hp) (by simpa using hother)
  · rintro ⟨position, hposition, hid, hfirst⟩
    refine ⟨(position, node), ?_, rfl⟩
    refine (find?_eq_some_iff_of_pairwise pairwise_clockwiseVnodes).mpr
      ⟨mem_clockwiseVnodes.mpr hposition, by simpa using hid, fun q hq hother => ?_⟩
    exact hfirst q.1 q.2 (mem_clockwiseVnodes.mp hq) (by simpa using hother)

theorem getSuccessorForKey_eq_none_iff {excludeNodeId : Option String} :
    r.getSuccessorForKey hashToInt key excludeNodeId = none ↔
      ∀ p other, r.ring.get? p = some other → excludeNodeId = some other.nodeId := by
  rw [getSuccessorForKey_eq_find?, List.find?_eq_none]
  constructor
  · intro h p other hp
    simpa using h other ((mem_clockwise hashToInt).mpr ⟨p, hp⟩)
  · intro h other hother
    obtain ⟨p, hp⟩ := (mem_clockwise hashToInt).mp hother
    simpa using h p other hp

/-- Without an excluded id the two lookups agree. -/
theorem getNode_eq_getSuccessorForKey_none :
    r.getNode hashToInt key = r.getSuccessorForKey hashToInt key none := by
  rw [getNode_eq_head?, getSuccessorForKey_eq_find?]
  cases r.clockwise hashToInt key with
  | nil => rfl
  | cons node l => rw [List.head?_cons, List.find?_cons_of_pos (by simp)]

theorem ownsNextOther_none_iff {node : NodeConfig} :
    r.OwnsNextOther hashToInt key none node ↔ r.OwnsNext hashToInt key node := by
  refine exists_congr fun position => and_congr_right fun hposition => ?_
  have hmem : position ∈ r.ring := OrderedDict.mem_iff_exists_get?.mpr ⟨node, hposition⟩
  refine Iff.trans ?_ (isLeast_clockwiseKey_iff (s := {p | p ∈ r.ring}))
  constructor
  · rintro ⟨-, hfirst⟩
    refine ⟨hmem, fun p hp => ?_⟩
    obtain ⟨other, hother⟩ := OrderedDict.mem_iff_exists_get?.mp hp
    exact hfirst p other hother (by simp)
  · rintro ⟨-, hfirst⟩
    exact ⟨by simp, fun p other hp _ =>
      hfirst p (OrderedDict.mem_iff_exists_get?.mpr ⟨other, hp⟩)⟩

theorem getNode_eq_some_iff {node : NodeConfig} :
    r.getNode hashToInt key = some node ↔ r.OwnsNext hashToInt key node := by
  rw [getNode_eq_getSuccessorForKey_none, getSuccessorForKey_eq_some_iff, ownsNextOther_none_iff]

theorem getNode_eq_none_iff : r.getNode hashToInt key = none ↔ ∀ p, p ∉ r.ring := by
  rw [getNode_eq_getSuccessorForKey_none, getSuccessorForKey_eq_none_iff]
  constructor
  · intro h p hp
    obtain ⟨other, hother⟩ := OrderedDict.mem_iff_exists_get?.mp hp
    cases h p other hother
  · intro h p other hother
    exact absurd (OrderedDict.mem_iff_exists_get?.mpr ⟨other, hother⟩) (h p)

/-! ### The first members clockwise -/

/-- A member that owns a position before all those of another member comes before it. -/
private theorem comesBefore_of_first (hr : r.FullyPlaced hashToInt) (hw : r.WellPlaced hashToInt)
    {position : ℕ} {node : NodeConfig} (hposition : r.ring.get? position = some node) {m : String}
    (hm : m ∈ r.nodes) (hne : m ≠ node.nodeId)
    (hfirst : ∀ p other, r.ring.get? p = some other → other.nodeId = m →
      clockwiseKey (hashToInt key) position ≤ clockwiseKey (hashToInt key) p) :
    ComesBefore hashToInt r.replicas key node.nodeId m := by
  obtain ⟨-, i, hi, hlabel⟩ := hw position node hposition
  obtain ⟨other, hother⟩ := OrderedDict.mem_iff_exists_get?.mp hm
  have hid : other.nodeId = m := hr.key_eq m other hother
  refine ⟨i, hi, fun j hj => ?_⟩
  have hvnode := hr.get?_ring m other hother j hj
  rw [hlabel]
  refine lt_of_le_of_ne (hfirst _ other hvnode hid) fun heq => hne ?_
  -- one position has one owner
  rw [← clockwiseKey_injective _ heq, hposition] at hvnode
  rw [← hid, Option.some.inj hvnode]

theorem ledByOwners (hr : r.FullyPlaced hashToInt) (hw : r.WellPlaced hashToInt) (key : String) :
    r.LedByOwners hashToInt key := by
  have hmember : ∀ {x}, x ∈ r.owners hashToInt key → x.nodeId ∈ r.nodes := fun hx =>
    OrderedDict.mem_iff_exists_get?.mpr ⟨_, hw.get?_nodes_of_mem_owners hx⟩
  refine ⟨⟨fun h => ?_, ?_⟩, ⟨fun h => ?_, ?_⟩, fun p hp => ?_, fun p q hpair => ?_⟩
  · obtain ⟨p, hp⟩ := Option.isSome_iff_exists.mp h
    exact ⟨p.nodeId, hmember ((mem_owners hashToInt).mpr (Or.inl hp))⟩
  · rintro ⟨m, hm⟩
    obtain ⟨p, q, hpair⟩ := hr.exists_primary hm key
    rw [hpair]
    rfl
  · obtain ⟨q, hq⟩ := Option.isSome_iff_exists.mp h
    rw [ownerPair] at hq
    cases hp : r.getNode hashToInt key with
    | none => rw [hp] at hq; cases hq
    | some p =>
      rw [hp] at hq
      obtain ⟨position, hposition, hne, -⟩ := getSuccessorForKey_eq_some_iff.mp hq
      have howner : (r.ownerPair hashToInt key).1 = some p := by rw [ownerPair, hp]
      refine ⟨p.nodeId, hmember ((mem_owners hashToInt).mpr (Or.inl howner)), q.nodeId,
        OrderedDict.mem_iff_exists_get?.mpr ⟨q, (hw position q hposition).1⟩, ?_⟩
      exact fun heq => hne (congrArg some heq)
  · rintro ⟨m, hm, n, hn, hne⟩
    obtain ⟨p, q, hpair⟩ := hr.exists_replica hm hn hne key
    rw [hpair]
    rfl
  · refine ⟨hw.get?_nodes_of_mem_owners ((mem_owners hashToInt).mpr (Or.inl hp)),
      fun m hm hne => ?_⟩
    rw [fst_ownerPair, ← getNode_eq_head?, getNode_eq_some_iff, ← ownsNextOther_none_iff] at hp
    obtain ⟨position, hposition, -, hfirst⟩ := hp
    exact comesBefore_of_first hr hw hposition hm hne fun x other hx _ =>
      hfirst x other hx (by simp)
  · have hp : r.getNode hashToInt key = some p := by
      rw [getNode_eq_head?, ← fst_ownerPair, hpair]
    rw [ownerPair, hp] at hpair
    obtain ⟨position, hposition, hne, hfirst⟩ :=
      getSuccessorForKey_eq_some_iff.mp (Prod.mk.inj hpair).2
    refine ⟨(hw position q hposition).1, fun heq => hne (congrArg some heq.symm),
      fun m hm hmp hmq => ?_⟩
    refine comesBefore_of_first hr hw hposition hm hmq fun x other hx hid => ?_
    exact hfirst x other hx fun heq => hmp (hid ▸ (Option.some.inj heq).symm)

/-- **Ring lookup is exact.** On every ring that is built by changes: `get_node` answers the owner
of the least position above that of the key, or of the least one of all, and nothing exactly on an
empty ring; the scan visits every position once, in clockwise order; `get_successor_for_key`
answers the owner of the first position whose owner does not have the excluded id, and nothing
exactly when there is no such position. Where the hash does not collide on the ids that were
added, the owners of a key are the first two members clockwise. -/
theorem lookup_exact {replicas : ℕ} {hreplicas : 0 < replicas} (changes : List RingChange)
    (key : String) (excludeNodeId : Option String) :
    let r := run hashToInt replicas hreplicas changes
    ((∀ node, r.getNode hashToInt key = some node ↔ r.OwnsNext hashToInt key node) ∧
      (r.getNode hashToInt key = none ↔ ∀ p, p ∉ r.ring)) ∧
    ((r.visited hashToInt key).Pairwise (fun a b =>
        clockwiseKey (hashToInt key) a < clockwiseKey (hashToInt key) b) ∧
      ∀ p, p ∈ r.visited hashToInt key ↔ p ∈ r.ring) ∧
    ((∀ node, r.getSuccessorForKey hashToInt key excludeNodeId = some node ↔
        r.OwnsNextOther hashToInt key excludeNodeId node) ∧
      (r.getSuccessorForKey hashToInt key excludeNodeId = none ↔
        ∀ p other, r.ring.get? p = some other → excludeNodeId = some other.nodeId)) ∧
    ∀ ids, NoCollision hashToInt replicas ids → (∀ c ∈ changes, c.AddsIn ids) →
      r.LedByOwners hashToInt key := by
  refine ⟨⟨fun node => getNode_eq_some_iff, getNode_eq_none_iff⟩,
    ⟨pairwise_visited, fun p => mem_visited⟩,
    ⟨fun node => getSuccessorForKey_eq_some_iff, getSuccessorForKey_eq_none_iff⟩, ?_⟩
  intro ids hcf hids
  exact ledByOwners (fullyPlaced_run hcf hids) (reachable_run changes).wellPlaced key

/-- `lookup_exact` where the key lies on the last position: its primary owns the first one. -/
theorem lookup_exact_last_position :
    let hash : String → ℕ := fun s => if s = "a:0" then 10 else if s = "b:0" then 20 else 20
    let a : NodeConfig := ⟨"a", "127.0.0.1", 8001⟩
    let b : NodeConfig := ⟨"b", "127.0.0.1", 8002⟩
    let r := run hash 1 Nat.one_pos [.addNode a, .addNode b]
    r.OwnsNext hash "k" a ∧ r.LedByOwners hash "k" := by
  intro hash a b r
  have hcf : NoCollision hash 1 {"a", "b"} := by
    intro x hx y hy i hi j hj
    obtain rfl : i = 0 := by omega
    obtain rfl : j = 0 := by omega
    rcases hx with rfl | rfl <;> rcases hy with rfl | rfl <;> decide
  obtain ⟨⟨hnode, -⟩, -, -, hled⟩ :=
    @lookup_exact hash 1 Nat.one_pos [.addNode a, .addNode b] "k" none
  exact ⟨(hnode a).mp (by decide), hled {"a", "b"} hcf (by simp [RingChange.AddsIn, a, b])⟩

end ConsistentHashRing

end DistributedCache
