import DistributedCache.Cluster.ConsistentHash
import DistributedCache.Library.LeadingPair

/-!
# Owner pairs across ring changes

The owners of a key are its primary `get_node(key)` and its replica, the successor of the key
without the primary: the first two records with distinct ids clockwise of the key. Removing a
node filters its id out of every clockwise list, and adding a node without collisions is undone
by that filter; so one ring change moves at most one owner of a key.

## Main definitions

* `ConsistentHashRing.ownerPair` : the primary and the replica of a key.
* `ConsistentHashRing.Reachable` : the rings built by `add_node` and `remove_node`.
* `ConsistentHashRing.WellPlaced` : every position carries the current record of its id and is
  the position of one of its virtual nodes.

## Main results

* `ConsistentHashRing.Reachable.wellPlaced` : reachable rings are well placed, for every hash.
* `ConsistentHashRing.clockwise_removeNode`, `ConsistentHashRing.filter_clockwise_addNode`.
* `ConsistentHashRing.minimal_disruption` : minimal disruption of key ownership.
-/

namespace DistributedCache

open Library

namespace ConsistentHashRing

variable (hashToInt : String → ℕ)

/-- The primary and the replica of a key. -/
def ownerPair (r : ConsistentHashRing) (key : String) : Option NodeConfig × Option NodeConfig :=
  match r.getNode hashToInt key with
  | none => (none, none)
  | some primary => (some primary, r.getSuccessorForKey hashToInt key (some primary.nodeId))

/-- The owners of a key, the primary first. -/
def owners (r : ConsistentHashRing) (key : String) : List NodeConfig :=
  (r.ownerPair hashToInt key).1.toList ++ (r.ownerPair hashToInt key).2.toList

/-- The ids of the owners of a key, `{node.node_id for node in (primary, replica) if node}`. -/
def ownerIds (r : ConsistentHashRing) (key : String) : List String :=
  (r.owners hashToInt key).map NodeConfig.nodeId

/-- The rings built from the empty ring by additions and removals. -/
inductive Reachable (replicas : ℕ) (h : 0 < replicas) : ConsistentHashRing → Prop
  | init : Reachable replicas h (init replicas h)
  | addNode {r : ConsistentHashRing} (node : NodeConfig) (hr : Reachable replicas h r) :
      Reachable replicas h (r.addNode hashToInt node)
  | removeNode {r : ConsistentHashRing} (nodeId : String) (hr : Reachable replicas h r) :
      Reachable replicas h (r.removeNode nodeId)

/-- Every position carries the current record of its id, and is the position of one of the
virtual nodes of that id. -/
def WellPlaced (r : ConsistentHashRing) : Prop :=
  ∀ position node, r.ring.get? position = some node → r.nodes.get? node.nodeId = some node ∧
    ∃ i < r.replicas, hashToInt (vnodeLabel node.nodeId i) = position

/-! ### Owner pairs as leading pairs -/

theorem ownerPair_eq_leadingPair (r : ConsistentHashRing) (key : String) :
    r.ownerPair hashToInt key =
      match leadingPair NodeConfig.nodeId (r.clockwise hashToInt key) with
      | none => (none, none)
      | some (a, b) => (some a, b) := by
  rw [ownerPair, getNode_eq_head?]
  cases hl : r.clockwise hashToInt key with
  | nil => rfl
  | cons a l =>
    have hfind : (a :: l).find? (fun node => some a.nodeId ≠ some node.nodeId) =
        l.find? fun node => node.nodeId ≠ a.nodeId := by
      rw [List.find?_cons_of_neg (by simp)]
      congr 1
      funext node
      simp [eq_comm]
    rw [leadingPair_cons, List.head?_cons]
    dsimp only
    rw [getSuccessorForKey_eq_find?, hl, hfind]

theorem ownerPair_eq_some_iff {r : ConsistentHashRing} {key : String} {p : NodeConfig}
    {q : Option NodeConfig} : r.ownerPair hashToInt key = (some p, q) ↔
      leadingPair NodeConfig.nodeId (r.clockwise hashToInt key) = some (p, q) := by
  rw [ownerPair_eq_leadingPair]
  cases leadingPair NodeConfig.nodeId (r.clockwise hashToInt key) with
  | none => simp
  | some pair => simp [Prod.ext_iff]

theorem fst_ownerPair (r : ConsistentHashRing) (key : String) :
    (r.ownerPair hashToInt key).1 = (r.clockwise hashToInt key).head? := by
  rw [ownerPair, ← getNode_eq_head?]
  cases r.getNode hashToInt key <;> rfl

/-- Two rings with the same clockwise list have the same owners. -/
theorem ownerPair_congr {r r' : ConsistentHashRing} {key : String}
    (h : r.clockwise hashToInt key = r'.clockwise hashToInt key) :
    r.ownerPair hashToInt key = r'.ownerPair hashToInt key := by
  rw [ownerPair_eq_leadingPair, ownerPair_eq_leadingPair, h]

theorem mem_clockwise {r : ConsistentHashRing} {key : String} {node : NodeConfig} :
    node ∈ r.clockwise hashToInt key ↔ ∃ position, r.ring.get? position = some node := by
  rw [clockwise, List.mem_map]
  constructor
  · rintro ⟨p, hp, rfl⟩
    have hmem : p ∈ r.virtualNodes := by
      rcases List.mem_append.mp hp with hp | hp <;> exact List.mem_of_mem_filter hp
    exact ⟨p.1, mem_virtualNodes.mp hmem⟩
  · rintro ⟨position, h⟩
    refine ⟨(position, node), List.mem_append.mpr ?_, rfl⟩
    have hmem : (position, node) ∈ r.virtualNodes := mem_virtualNodes.mpr h
    rcases lt_or_ge (hashToInt key) position with hlt | hge
    · exact Or.inl (List.mem_filter.mpr ⟨hmem, by simpa using hlt⟩)
    · exact Or.inr (List.mem_filter.mpr ⟨hmem, by simpa using hge⟩)

theorem mem_owners {r : ConsistentHashRing} {key : String} {node : NodeConfig} :
    node ∈ r.owners hashToInt key ↔
      (r.ownerPair hashToInt key).1 = some node ∨ (r.ownerPair hashToInt key).2 = some node := by
  simp [owners, Option.mem_toList]

theorem mem_ownerIds {r : ConsistentHashRing} {key nodeId : String} :
    nodeId ∈ r.ownerIds hashToInt key ↔
      ∃ node ∈ r.owners hashToInt key, node.nodeId = nodeId := by
  simp [ownerIds]

theorem mem_ownerIds_of_mem {r : ConsistentHashRing} {key : String} {node : NodeConfig}
    (h : node ∈ r.owners hashToInt key) : node.nodeId ∈ r.ownerIds hashToInt key :=
  List.mem_map_of_mem h

theorem mem_clockwise_of_mem_owners {r : ConsistentHashRing} {key : String} {node : NodeConfig}
    (h : node ∈ r.owners hashToInt key) : node ∈ r.clockwise hashToInt key := by
  rw [mem_owners, ownerPair_eq_leadingPair] at h
  cases hl : leadingPair NodeConfig.nodeId (r.clockwise hashToInt key) with
  | none => simp [hl] at h
  | some pair =>
    obtain ⟨a, b⟩ := pair
    obtain ⟨ha, hb⟩ := mem_of_leadingPair _ hl
    rw [hl] at h
    rcases h with h | h
    · exact Option.some.inj h ▸ ha
    · exact (hb node h).1

/-- The two owners of a key have distinct ids. -/
theorem nodup_ownerIds (r : ConsistentHashRing) (key : String) :
    (r.ownerIds hashToInt key).Nodup := by
  rw [ownerIds, owners, ownerPair_eq_leadingPair]
  cases hl : leadingPair NodeConfig.nodeId (r.clockwise hashToInt key) with
  | none => simp
  | some pair =>
    obtain ⟨a, b⟩ := pair
    cases b with
    | none => simp
    | some b => simpa using Ne.symm ((mem_of_leadingPair _ hl).2 b rfl).2

/-! ### Reachable rings -/

theorem replicas_of_reachable {replicas : ℕ} {h : 0 < replicas} {r : ConsistentHashRing}
    (hr : Reachable hashToInt replicas h r) : r.replicas = replicas := by
  induction hr with
  | init => rfl
  | addNode node hr ih => exact ih
  | removeNode nodeId hr ih => exact ih

theorem wellPlaced_init (replicas : ℕ) (h : 0 < replicas) :
    (init replicas h).WellPlaced hashToInt := by
  intro position node hnode
  exact absurd hnode (by simp [init])

variable {hashToInt}

/-- Re-adding an id overwrites all its positions, so no position keeps an outdated record. -/
theorem WellPlaced.addNode {r : ConsistentHashRing} (hr : r.WellPlaced hashToInt)
    (node : NodeConfig) : (r.addNode hashToInt node).WellPlaced hashToInt := by
  intro position x hx
  change (placeVnodes hashToInt node r.replicas r.ring).get? position = some x at hx
  change (r.nodes.set node.nodeId node).get? x.nodeId = some x ∧ _
  rw [get?_placeVnodes] at hx
  by_cases hpos : ∃ i < r.replicas, hashToInt (vnodeLabel node.nodeId i) = position
  · rw [if_pos hpos] at hx
    obtain rfl := Option.some.inj hx
    exact ⟨OrderedDict.get?_set_self _ _ _, hpos⟩
  · rw [if_neg hpos] at hx
    obtain ⟨hnodes, hlabel⟩ := hr position x hx
    have hne : x.nodeId ≠ node.nodeId := fun h => hpos (h ▸ hlabel)
    exact ⟨by rw [OrderedDict.get?_set_of_ne _ _ hne, hnodes], hlabel⟩

theorem WellPlaced.removeNode {r : ConsistentHashRing} (hr : r.WellPlaced hashToInt)
    (nodeId : String) : (r.removeNode nodeId).WellPlaced hashToInt := by
  intro position x hx
  change (dropPositions r.ring nodeId).get? position = some x at hx
  change (r.nodes.pop nodeId).get? x.nodeId = some x ∧ _
  rw [get?_dropPositions, Option.filter_eq_some_iff] at hx
  obtain ⟨hx, hne⟩ := hx
  obtain ⟨hnodes, hlabel⟩ := hr position x hx
  refine ⟨?_, hlabel⟩
  rw [OrderedDict.get?_pop_of_ne _ (by simpa using hne), hnodes]

theorem Reachable.wellPlaced {replicas : ℕ} {h : 0 < replicas} {r : ConsistentHashRing}
    (hr : Reachable hashToInt replicas h r) : r.WellPlaced hashToInt := by
  induction hr with
  | init => exact wellPlaced_init hashToInt replicas h
  | addNode node hr ih => exact ih.addNode node
  | removeNode nodeId hr ih => exact ih.removeNode nodeId

/-- The owners of a key are current records. -/
theorem WellPlaced.get?_nodes_of_mem_owners {r : ConsistentHashRing}
    (hr : r.WellPlaced hashToInt) {key : String} {node : NodeConfig}
    (h : node ∈ r.owners hashToInt key) : r.nodes.get? node.nodeId = some node := by
  obtain ⟨position, hpos⟩ := (mem_clockwise hashToInt).mp (mem_clockwise_of_mem_owners hashToInt h)
  exact (hr position node hpos).1

/-! ### Rings without collisions -/

/-- The nodes are keyed by their ids, and carry all positions of their virtual nodes. -/
structure FullyPlaced (hashToInt : String → ℕ) (r : ConsistentHashRing) : Prop where
  key_eq : ∀ nodeId node, r.nodes.get? nodeId = some node → node.nodeId = nodeId
  get?_ring : ∀ nodeId node, r.nodes.get? nodeId = some node → ∀ i < r.replicas,
    r.ring.get? (hashToInt (vnodeLabel nodeId i)) = some node

theorem fullyPlaced_init (hashToInt : String → ℕ) (replicas : ℕ) (h : 0 < replicas) :
    (init replicas h).FullyPlaced hashToInt := by
  constructor <;> intro nodeId node hnode <;> simp [init] at hnode

/-- Without collisions a node that joins overwrites no position of another node. -/
theorem FullyPlaced.addNode {r : ConsistentHashRing} (hr : r.FullyPlaced hashToInt)
    {node : NodeConfig} {ids : Set String} (hcf : NoCollision hashToInt r.replicas ids)
    (hids : ∀ id ∈ r.nodes, id ∈ ids) (hid : node.nodeId ∈ ids) :
    (r.addNode hashToInt node).FullyPlaced hashToInt := by
  have hnodes : ∀ nodeId x, (r.addNode hashToInt node).nodes.get? nodeId = some x →
      nodeId = node.nodeId ∧ x = node ∨ nodeId ≠ node.nodeId ∧ r.nodes.get? nodeId = some x := by
    intro nodeId x hx
    change (r.nodes.set node.nodeId node).get? nodeId = some x at hx
    rw [OrderedDict.get?_set] at hx
    split_ifs at hx with hne
    · exact Or.inl ⟨hne, (Option.some.inj hx).symm⟩
    · exact Or.inr ⟨hne, hx⟩
  constructor
  · intro nodeId x hx
    rcases hnodes nodeId x hx with ⟨rfl, rfl⟩ | ⟨-, hx⟩
    · rfl
    · exact hr.key_eq nodeId x hx
  · intro nodeId x hx i hi
    change (placeVnodes hashToInt node r.replicas r.ring).get? _ = some x
    rw [get?_placeVnodes]
    rcases hnodes nodeId x hx with ⟨rfl, rfl⟩ | ⟨hne, hx⟩
    · rw [if_pos ⟨i, hi, rfl⟩]
    · have hfree : ¬∃ j < r.replicas,
          hashToInt (vnodeLabel node.nodeId j) = hashToInt (vnodeLabel nodeId i) := by
        rintro ⟨j, hj, heq⟩
        have hmem := hids nodeId (OrderedDict.mem_iff_exists_get?.mpr ⟨x, hx⟩)
        have hsame := hcf _ hid _ hmem j hj i hi heq
        exact hne (vnodeLabel_injective hsame).1.symm
      rw [if_neg hfree]
      exact hr.get?_ring nodeId x hx i hi

theorem FullyPlaced.removeNode {r : ConsistentHashRing} (hr : r.FullyPlaced hashToInt)
    (nodeId : String) : (r.removeNode nodeId).FullyPlaced hashToInt := by
  have hnodes : ∀ id x, (r.removeNode nodeId).nodes.get? id = some x →
      id ≠ nodeId ∧ r.nodes.get? id = some x := by
    intro id x hx
    change (r.nodes.pop nodeId).get? id = some x at hx
    rw [OrderedDict.get?_pop] at hx
    split_ifs at hx with hne
    exact ⟨hne, hx⟩
  constructor
  · intro id x hx
    exact hr.key_eq id x (hnodes id x hx).2
  · intro id x hx i hi
    obtain ⟨hne, hx⟩ := hnodes id x hx
    change (dropPositions r.ring nodeId).get? _ = some x
    rw [get?_dropPositions, hr.get?_ring id x hx i hi, Option.filter_eq_some_iff]
    exact ⟨rfl, by simpa [hr.key_eq id x hx] using hne⟩

/-- The record of a node is on every clockwise list. -/
theorem FullyPlaced.mem_clockwise {r : ConsistentHashRing} (hr : r.FullyPlaced hashToInt)
    {nodeId : String} {node : NodeConfig} (h : r.nodes.get? nodeId = some node) (key : String) :
    node ∈ r.clockwise hashToInt key :=
  (ConsistentHashRing.mem_clockwise hashToInt).mpr ⟨_, hr.get?_ring nodeId node h 0 r.replicas_pos⟩

/-- A ring with a node has a primary for every key. -/
theorem FullyPlaced.exists_primary {r : ConsistentHashRing} (hr : r.FullyPlaced hashToInt)
    {nodeId : String} (h : nodeId ∈ r.nodes) (key : String) :
    ∃ p q, r.ownerPair hashToInt key = (some p, q) := by
  obtain ⟨node, hnode⟩ := OrderedDict.mem_iff_exists_get?.mp h
  cases hl : leadingPair NodeConfig.nodeId (r.clockwise hashToInt key) with
  | none =>
    have hnil := (leadingPair_eq_none_iff _).mp hl
    exact absurd (hr.mem_clockwise hnode key) (hnil ▸ List.not_mem_nil)
  | some pair => exact ⟨pair.1, pair.2, (ownerPair_eq_some_iff hashToInt).mpr hl⟩

/-- A ring with two nodes has a replica for every key. -/
theorem FullyPlaced.exists_replica {r : ConsistentHashRing} (hr : r.FullyPlaced hashToInt)
    {a b : String} (ha : a ∈ r.nodes) (hb : b ∈ r.nodes) (hab : a ≠ b) (key : String) :
    ∃ p q, r.ownerPair hashToInt key = (some p, some q) := by
  obtain ⟨p, q, hpair⟩ := hr.exists_primary ha key
  cases q with
  | some q => exact ⟨p, q, hpair⟩
  | none =>
    rw [ownerPair_eq_some_iff] at hpair
    have hsame : ∀ {id}, id ∈ r.nodes → id = p.nodeId := by
      intro id hid
      obtain ⟨x, hx⟩ := OrderedDict.mem_iff_exists_get?.mp hid
      rw [← hr.key_eq id x hx]
      exact eq_of_leadingPair_none _ hpair (hr.mem_clockwise hx key)
    exact absurd ((hsame ha).trans (hsame hb).symm) hab

/-! ### One ring change -/

private theorem clockwise_eq_filter {r r' : ConsistentHashRing} {p : NodeConfig → Bool}
    (h : ∀ position, r'.ring.get? position = (r.ring.get? position).filter p) (key : String) :
    r'.clockwise hashToInt key = (r.clockwise hashToInt key).filter p := by
  have hv : r'.virtualNodes = r.virtualNodes.filter fun q => p q.2 := by
    refine virtualNodes_eq_of_mem (r.pairwise_virtualNodes.filter _) fun q => ?_
    rw [List.mem_filter, mem_virtualNodes, h, Option.filter_eq_some_iff]
  rw [clockwise, clockwise, hv, List.filter_map, List.filter_append, List.filter_filter,
    List.filter_filter, List.filter_filter, List.filter_filter]
  simp only [Function.comp_apply, Bool.and_comm]

/-- Removing a node filters its id out of every clockwise list. -/
theorem clockwise_removeNode (r : ConsistentHashRing) (nodeId key : String) :
    (r.removeNode nodeId).clockwise hashToInt key =
      (r.clockwise hashToInt key).filter fun node => node.nodeId ≠ nodeId :=
  clockwise_eq_filter (fun position => get?_dropPositions r.ring nodeId position) key

/-- The ring does not know the id, and the positions of its virtual nodes are free. -/
def FreshNode (hashToInt : String → ℕ) (r : ConsistentHashRing) (nodeId : String) : Prop :=
  (∀ position node, r.ring.get? position = some node → node.nodeId ≠ nodeId) ∧
    ∀ i < r.replicas, hashToInt (vnodeLabel nodeId i) ∉ r.ring

/-- Without collisions the positions of a node outside the ring are free. -/
theorem WellPlaced.freshNode {r : ConsistentHashRing} (hr : r.WellPlaced hashToInt)
    {nodeId : String} (hn : nodeId ∉ r.nodes) {ids : Set String}
    (hcf : NoCollision hashToInt r.replicas ids) (hids : ∀ id, id ∈ r.nodes → id ∈ ids)
    (hid : nodeId ∈ ids) : r.FreshNode hashToInt nodeId := by
  have hmem : ∀ position node, r.ring.get? position = some node → node.nodeId ∈ r.nodes :=
    fun position node h => OrderedDict.mem_iff_exists_get?.mpr ⟨node, (hr position node h).1⟩
  refine ⟨fun position node h hne => hn (hne ▸ hmem position node h), fun i hi hpos => ?_⟩
  obtain ⟨node, hnode⟩ := OrderedDict.mem_iff_exists_get?.mp hpos
  obtain ⟨-, j, hj, hlabel⟩ := hr _ _ hnode
  have hsame := hcf _ (hids _ (hmem _ _ hnode)) _ hid j hj i hi hlabel
  exact hn ((vnodeLabel_injective hsame).1 ▸ hmem _ _ hnode)

/-- Filtering a fresh node out of a clockwise list undoes its addition. -/
theorem filter_clockwise_addNode {r : ConsistentHashRing} {node : NodeConfig}
    (hfresh : r.FreshNode hashToInt node.nodeId) (key : String) :
    ((r.addNode hashToInt node).clockwise hashToInt key).filter
      (fun x => x.nodeId ≠ node.nodeId) = r.clockwise hashToInt key := by
  refine (clockwise_eq_filter (fun position => ?_) key).symm
  change _ = ((placeVnodes hashToInt node r.replicas r.ring).get? position).filter _
  rw [get?_placeVnodes]
  split_ifs with hpos
  · obtain ⟨i, hi, rfl⟩ := hpos
    rw [OrderedDict.get?_eq_none_iff.mpr (hfresh.2 i hi)]
    simp [Option.filter]
  · cases hp : r.ring.get? position with
    | none => rfl
    | some x => simp [Option.filter, hfresh.1 position x hp]

/-- The record of a fresh node is the only one with its id. -/
theorem eq_of_mem_clockwise_addNode {r : ConsistentHashRing} {node x : NodeConfig}
    (hfresh : r.FreshNode hashToInt node.nodeId) {key : String}
    (hx : x ∈ (r.addNode hashToInt node).clockwise hashToInt key)
    (hid : x.nodeId = node.nodeId) : x = node := by
  obtain ⟨position, hpos⟩ := (mem_clockwise hashToInt).mp hx
  change (placeVnodes hashToInt node r.replicas r.ring).get? position = some x at hpos
  rw [get?_placeVnodes] at hpos
  split_ifs at hpos with h
  · exact (Option.some.inj hpos).symm
  · exact absurd hid (hfresh.1 position x hpos)

/-- A ring that a node has joined has a primary for every key. -/
theorem isSome_fst_ownerPair_addNode (r : ConsistentHashRing) (node : NodeConfig) (key : String) :
    ((r.addNode hashToInt node).ownerPair hashToInt key).1.isSome := by
  have hmem : node ∈ (r.addNode hashToInt node).clockwise hashToInt key := by
    refine (mem_clockwise hashToInt).mpr ⟨hashToInt (vnodeLabel node.nodeId 0), ?_⟩
    change (placeVnodes hashToInt node r.replicas r.ring).get? _ = some node
    rw [get?_placeVnodes, if_pos ⟨0, r.replicas_pos, rfl⟩]
  rw [fst_ownerPair, List.isSome_head?]
  exact List.ne_nil_of_mem hmem

/-- A node that joins enters a pair of owners in one of the two roles, next to the primary, or
not at all. -/
theorem ownerPair_addNode {r : ConsistentHashRing} {node p : NodeConfig} {q : Option NodeConfig}
    (hfresh : r.FreshNode hashToInt node.nodeId) {key : String}
    (h : r.ownerPair hashToInt key = (some p, q)) :
    (r.addNode hashToInt node).ownerPair hashToInt key = (some p, q) ∨
      (r.addNode hashToInt node).ownerPair hashToInt key = (some node, some p) ∨
      (r.addNode hashToInt node).ownerPair hashToInt key = (some p, some node) := by
  rw [ownerPair_eq_some_iff, ← filter_clockwise_addNode hfresh] at h
  simp only [ownerPair_eq_some_iff]
  rcases leadingPair_eq_of_filter_ne _ h with h | ⟨x, hx, h | h⟩
  · exact Or.inl h
  · have hmem := (mem_of_leadingPair _ h).1
    rw [eq_of_mem_clockwise_addNode hfresh hmem hx] at h
    exact Or.inr (Or.inl h)
  · have hmem := ((mem_of_leadingPair _ h).2 x rfl).1
    rw [eq_of_mem_clockwise_addNode hfresh hmem hx] at h
    exact Or.inr (Or.inr h)

/-- Adding a fresh node and removing it again gives the owners back. -/
theorem ownerPair_removeNode_addNode {r : ConsistentHashRing} {node : NodeConfig}
    (hfresh : r.FreshNode hashToInt node.nodeId) (key : String) :
    ((r.addNode hashToInt node).removeNode node.nodeId).ownerPair hashToInt key =
      r.ownerPair hashToInt key := by
  refine ownerPair_congr hashToInt ?_
  rw [clockwise_removeNode, filter_clockwise_addNode hfresh]

/-- A removed primary is replaced by its replica. -/
theorem fst_ownerPair_removeNode_of_eq {r : ConsistentHashRing} {p : NodeConfig}
    {q : Option NodeConfig} {key nodeId : String}
    (h : r.ownerPair hashToInt key = (some p, q)) (hp : p.nodeId = nodeId) :
    ((r.removeNode nodeId).ownerPair hashToInt key).1 = q := by
  rw [ownerPair_eq_some_iff] at h
  rw [fst_ownerPair, clockwise_removeNode, head?_filter_ne_of_leadingPair _ h hp]

/-- A primary that stays keeps its role. -/
theorem fst_ownerPair_removeNode_of_ne {r : ConsistentHashRing} {p : NodeConfig}
    {q : Option NodeConfig} {key nodeId : String}
    (h : r.ownerPair hashToInt key = (some p, q)) (hp : p.nodeId ≠ nodeId) :
    ((r.removeNode nodeId).ownerPair hashToInt key).1 = some p := by
  rw [ownerPair_eq_some_iff] at h
  rw [fst_ownerPair, clockwise_removeNode, head?_filter_ne_of_leadingPair_ne _ h hp]

/-- Owners that both stay keep their roles. -/
theorem ownerPair_removeNode_of_ne {r : ConsistentHashRing} {p : NodeConfig}
    {q : Option NodeConfig} {key nodeId : String}
    (h : r.ownerPair hashToInt key = (some p, q)) (hp : p.nodeId ≠ nodeId)
    (hq : ∀ x ∈ q, x.nodeId ≠ nodeId) :
    (r.removeNode nodeId).ownerPair hashToInt key = (some p, q) := by
  obtain ⟨b, hb⟩ : ∃ b, (r.removeNode nodeId).ownerPair hashToInt key = (some p, b) :=
    ⟨_, Prod.ext (fst_ownerPair_removeNode_of_ne h hp) rfl⟩
  rw [hb]
  rw [ownerPair_eq_some_iff] at h hb
  rw [clockwise_removeNode] at hb
  rcases leadingPair_eq_of_filter_ne _ hb with h' | ⟨x, hx, h' | h'⟩
  · rw [h] at h'
    rw [(Prod.mk.inj (Option.some.inj h')).2]
  · rw [h] at h'
    exact absurd ((Prod.mk.inj (Option.some.inj h')).1 ▸ hx) hp
  · rw [h] at h'
    exact absurd hx (hq x (Prod.mk.inj (Option.some.inj h')).2)

/-- An owner of a key that stays a member stays an owner. -/
theorem mem_owners_removeNode {r : ConsistentHashRing} {nodeId key : String}
    {node : NodeConfig} (hnode : node ∈ r.owners hashToInt key) (hne : node.nodeId ≠ nodeId) :
    node ∈ (r.removeNode nodeId).owners hashToInt key := by
  rw [mem_owners] at hnode ⊢
  obtain ⟨p, hp⟩ : ∃ p, (r.ownerPair hashToInt key).1 = some p := by
    cases hget : r.getNode hashToInt key with
    | none => rcases hnode with h | h <;> simp [ownerPair, hget] at h
    | some p => exact ⟨p, by rw [ownerPair, hget]⟩
  have hpair : r.ownerPair hashToInt key = (some p, (r.ownerPair hashToInt key).2) :=
    Prod.ext hp rfl
  rcases hnode with h | h
  · obtain rfl := Option.some.inj (hp.symm.trans h)
    exact Or.inl (fst_ownerPair_removeNode_of_ne hpair hne)
  · by_cases hremoved : p.nodeId = nodeId
    · refine Or.inl ?_
      rw [fst_ownerPair_removeNode_of_eq hpair hremoved, h]
    · refine Or.inr ?_
      rw [ownerPair_removeNode_of_ne hpair hremoved, h]
      rintro x hx
      rw [h] at hx
      exact Option.some.inj hx ▸ hne

/-- **Minimal disruption of key ownership.** When a node joins a reachable ring, the owners
`(p, q)` of a key stay, or the node takes one of the two roles next to the primary `p`.
Removing it again gives exactly `(p, q)` back: a removed primary is replaced by its replica, a
removed replica leaves the primary in place, and owners other than the node keep their roles.
The hash need only separate the virtual nodes of the members and of the node. -/
theorem minimal_disruption {replicas : ℕ} {hreplicas : 0 < replicas} {r : ConsistentHashRing}
    (hr : Reachable hashToInt replicas hreplicas r) (node : NodeConfig)
    (hn : node.nodeId ∉ r.nodes)
    (hcf : NoCollision hashToInt replicas {id | id ∈ r.nodes ∨ id = node.nodeId})
    (key : String) {p : NodeConfig} {q : Option NodeConfig}
    (h : r.ownerPair hashToInt key = (some p, q)) :
    ((r.addNode hashToInt node).ownerPair hashToInt key = (some p, q) ∨
      (r.addNode hashToInt node).ownerPair hashToInt key = (some node, some p) ∨
      (r.addNode hashToInt node).ownerPair hashToInt key = (some p, some node)) ∧
    ((r.addNode hashToInt node).removeNode node.nodeId).ownerPair hashToInt key = (some p, q) ∧
    ∀ p' q', (r.addNode hashToInt node).ownerPair hashToInt key = (some p', q') →
      (p'.nodeId = node.nodeId →
        (((r.addNode hashToInt node).removeNode node.nodeId).ownerPair hashToInt key).1 = q') ∧
      (p'.nodeId ≠ node.nodeId →
        (((r.addNode hashToInt node).removeNode node.nodeId).ownerPair hashToInt key).1 =
          some p') ∧
      (p'.nodeId ≠ node.nodeId → (∀ x ∈ q', x.nodeId ≠ node.nodeId) →
        ((r.addNode hashToInt node).removeNode node.nodeId).ownerPair hashToInt key =
          (some p', q')) := by
  have hfresh : r.FreshNode hashToInt node.nodeId := by
    rw [← replicas_of_reachable hashToInt hr] at hcf
    exact hr.wellPlaced.freshNode hn hcf (fun _ hid => Or.inl hid) (Or.inr rfl)
  refine ⟨ownerPair_addNode hfresh h, (ownerPair_removeNode_addNode hfresh key).trans h, ?_⟩
  intro p' q' h'
  exact ⟨fst_ownerPair_removeNode_of_eq h', fst_ownerPair_removeNode_of_ne h',
    ownerPair_removeNode_of_ne h'⟩

/-- `minimal_disruption` on a ring of one node with one virtual node, joined by a second. -/
theorem minimal_disruption_two_nodes :
    let hash : String → ℕ := fun s => if s = "a:0" then 10 else if s = "b:0" then 20 else 15
    let a : NodeConfig := ⟨"a", "127.0.0.1", 8001⟩
    let b : NodeConfig := ⟨"b", "127.0.0.1", 8002⟩
    let r := (init 1 Nat.one_pos).addNode hash a
    (r.addNode hash b).ownerPair hash "key" = (some a, none) ∨
      (r.addNode hash b).ownerPair hash "key" = (some b, some a) ∨
      (r.addNode hash b).ownerPair hash "key" = (some a, some b) := by
  intro hash a b r
  have hcf : NoCollision hash 1 {id | id ∈ r.nodes ∨ id = b.nodeId} := by
    have hid : ∀ id, (id ∈ r.nodes ∨ id = b.nodeId) → id = "a" ∨ id = "b" := by
      rintro id (h | h)
      · exact Or.inl (by simpa using show id ∈ ["a"] from h)
      · exact Or.inr h
    intro x hx y hy i hi j hj
    obtain rfl : i = 0 := by omega
    obtain rfl : j = 0 := by omega
    rcases hid x hx with rfl | rfl <;> rcases hid y hy with rfl | rfl <;> decide
  exact (minimal_disruption (.addNode a .init) b (by decide) hcf "key" (by decide)).1

end ConsistentHashRing

end DistributedCache
