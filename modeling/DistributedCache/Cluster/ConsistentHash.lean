import DistributedCache.Cluster.Models
import DistributedCache.Library.Bisect
import DistributedCache.Library.OrderedDict
import Mathlib.Data.List.Rotate

/-!
# The consistent hash ring

A node stands on the ring at the positions of its virtual nodes `node_id:0`, `node_id:1`, …; a
key belongs to the first virtual node clockwise of the position of the key. The hash of the
source, SHA-256 read as a number, is the parameter `hashToInt`.

Source: `distributed_cache/cluster/consistent_hash.py`.

## Main definitions

* `ConsistentHashRing` : the ring; its sorted positions always are those of its table.
* `ConsistentHashRing.addNode`, `ConsistentHashRing.removeNode`.
* `ConsistentHashRing.getNode`, `ConsistentHashRing.getSuccessorForKey` : the two lookups.
* `ConsistentHashRing.clockwise` : the records met from the position of a key on, going around
  once.
* `NoCollision` : the hash separates the virtual nodes of some node ids.

## Main results

* `ConsistentHashRing.getNode_eq_head?`, `ConsistentHashRing.getSuccessorForKey_eq_find?` : both
  lookups read the clockwise list.
* `vnodeLabel_injective` : no two virtual nodes share a label.
-/

namespace DistributedCache

open Library

/-- The label `f"{node_id}:{index}"` that is hashed to a position. -/
def vnodeLabel (nodeId : String) (index : ℕ) : String := nodeId ++ ":" ++ toString index

private theorem colon_notMem_toDigits (n : ℕ) : ':' ∉ Nat.toDigits 10 n := by
  intro h
  have hd := Nat.isDigit_of_mem_toDigits (by omega) (by omega) h
  revert hd
  decide

private theorem append_colon_inj {x y u v : List Char} (hx : ':' ∉ x) (hy : ':' ∉ y)
    (h : x ++ ':' :: u = y ++ ':' :: v) : x = y ∧ u = v := by
  have htake : ∀ {z w : List Char}, ':' ∉ z → (z ++ ':' :: w).takeWhile (· ≠ ':') = z := by
    intro z w hz
    have hne : ∀ a ∈ z, decide (a ≠ ':') = true := fun a ha =>
      decide_eq_true fun h : a = ':' => hz (h ▸ ha)
    rw [List.takeWhile_append_of_pos hne]
    simp
  have hxy : x = y := by
    rw [← htake (w := u) hx, h, htake hy]
  subst hxy
  exact ⟨rfl, (List.cons.inj (List.append_cancel_left h)).2⟩

/-- Ids may contain colons and digits themselves: the last colon of a label still separates the
id from the index. -/
theorem vnodeLabel_injective {a b : String} {i j : ℕ} (h : vnodeLabel a i = vnodeLabel b j) :
    a = b ∧ i = j := by
  have hl : a.toList ++ ':' :: Nat.toDigits 10 i = b.toList ++ ':' :: Nat.toDigits 10 j := by
    have h' := congrArg String.toList h
    simpa [vnodeLabel, String.toList_append, Nat.toString_eq_repr, Nat.toList_repr] using h'
  have hr := congrArg List.reverse hl
  simp only [List.reverse_append, List.reverse_cons, List.append_assoc,
    List.singleton_append] at hr
  obtain ⟨hij, hab⟩ := append_colon_inj (by simpa using colon_notMem_toDigits i)
    (by simpa using colon_notMem_toDigits j) hr
  have hdigits := congrArg (fun l => Nat.ofDigitChars 10 l 0) (List.reverse_injective hij)
  refine ⟨String.toList_injective (List.reverse_injective hab), ?_⟩
  simpa only [Nat.ofDigitChars_ten_toDigits] using hdigits

/-- The ring: the record at every position, the positions in order, the records by id. -/
structure ConsistentHashRing where
  replicas : ℕ
  replicas_pos : 0 < replicas
  ring : OrderedDict ℕ NodeConfig
  sortedKeys : List ℕ
  nodes : OrderedDict String NodeConfig
  sortedKeys_eq : sortedKeys = ring.keys.insertionSort (· ≤ ·)
  deriving DecidableEq

/-- The hash separates the virtual nodes of the ids in `ids`, for `replicas` virtual nodes a
node: no two distinct labels share a position. -/
def NoCollision (hashToInt : String → ℕ) (replicas : ℕ) (ids : Set String) : Prop :=
  ∀ a ∈ ids, ∀ b ∈ ids, ∀ i < replicas, ∀ j < replicas,
    hashToInt (vnodeLabel a i) = hashToInt (vnodeLabel b j) → vnodeLabel a i = vnodeLabel b j

namespace ConsistentHashRing

/-- The empty ring of `ConsistentHashRing(replicas)`; the source refuses `replicas <= 0`. -/
def init (replicas : ℕ) (h : 0 < replicas) : ConsistentHashRing where
  replicas := replicas
  replicas_pos := h
  ring := .empty
  sortedKeys := []
  nodes := .empty
  sortedKeys_eq := rfl

/-- The ring over another table of positions, with its positions sorted again. -/
def withTable (r : ConsistentHashRing) (table : OrderedDict ℕ NodeConfig)
    (nodes : OrderedDict String NodeConfig) : ConsistentHashRing where
  replicas := r.replicas
  replicas_pos := r.replicas_pos
  ring := table
  sortedKeys := table.keys.insertionSort (· ≤ ·)
  nodes := nodes
  sortedKeys_eq := rfl

/-- `_ring.pop(key, None)` for every position whose record has the id. -/
def dropPositions (table : OrderedDict ℕ NodeConfig) (nodeId : String) :
    OrderedDict ℕ NodeConfig :=
  ((table.toList.filter fun p => p.2.nodeId = nodeId).map Prod.fst).foldl OrderedDict.pop table

def removeNode (r : ConsistentHashRing) (nodeId : String) : ConsistentHashRing :=
  r.withTable (dropPositions r.ring nodeId) (r.nodes.pop nodeId)

/-- The positions with their records, in order. -/
def virtualNodes (r : ConsistentHashRing) : List (ℕ × NodeConfig) :=
  r.sortedKeys.filterMap fun position => (r.ring.get? position).map fun node => (position, node)

/-- `_ring[_sorted_keys[index]]`. -/
def nodeAt (r : ConsistentHashRing) (index : ℕ) : Option NodeConfig :=
  r.sortedKeys[index]?.bind r.ring.get?

section Hash

variable (hashToInt : String → ℕ)

/-- Write the record of a node at the positions of its first `count` virtual nodes. -/
def placeVnodes (node : NodeConfig) (count : ℕ) (table : OrderedDict ℕ NodeConfig) :
    OrderedDict ℕ NodeConfig :=
  (List.range count).foldl
    (fun table index => table.set (hashToInt (vnodeLabel node.nodeId index)) node) table

def addNode (r : ConsistentHashRing) (node : NodeConfig) : ConsistentHashRing :=
  r.withTable (placeVnodes hashToInt node r.replicas r.ring) (r.nodes.set node.nodeId node)

/-- `bisect_right` of the position of the key, back to the start past the last position. -/
def startIndex (r : ConsistentHashRing) (key : String) : ℕ :=
  let index := bisectRight r.sortedKeys (hashToInt key)
  if index = r.sortedKeys.length then 0 else index

def getNode (r : ConsistentHashRing) (key : String) : Option NodeConfig :=
  if r.ring.toList = [] then none else r.nodeAt (r.startIndex hashToInt key)

def getSuccessorForKey (r : ConsistentHashRing) (key : String) (excludeNodeId : Option String) :
    Option NodeConfig :=
  if r.ring.toList = [] then none
  else
    (List.range r.sortedKeys.length).findSome? fun offset =>
      (r.nodeAt ((r.startIndex hashToInt key + offset) % r.sortedKeys.length)).bind fun candidate =>
        if excludeNodeId = some candidate.nodeId then none else some candidate

/-- The records met clockwise from the position of the key on, every position once. -/
def clockwise (r : ConsistentHashRing) (key : String) : List NodeConfig :=
  (r.virtualNodes.filter (fun p => hashToInt key < p.1) ++
    r.virtualNodes.filter fun p => p.1 ≤ hashToInt key).map Prod.snd

end Hash

/-! ### Tables of positions -/

private theorem get?_foldl_pop {α : Type*} (ks : List ℕ) (table : OrderedDict ℕ α) (k : ℕ) :
    (ks.foldl OrderedDict.pop table).get? k = if k ∈ ks then none else table.get? k := by
  induction ks generalizing table with
  | nil => simp
  | cons a ks ih =>
    rw [List.foldl_cons, ih, OrderedDict.get?_pop]
    by_cases hk : k ∈ ks
    · simp [hk]
    · simp [hk]

theorem get?_dropPositions (table : OrderedDict ℕ NodeConfig) (nodeId : String) (position : ℕ) :
    (dropPositions table nodeId).get? position =
      (table.get? position).filter fun node => node.nodeId ≠ nodeId := by
  rw [dropPositions, get?_foldl_pop]
  cases hp : table.get? position with
  | none => simp
  | some node =>
    have hmem : position ∈ (table.toList.filter fun p => p.2.nodeId = nodeId).map Prod.fst ↔
        node.nodeId = nodeId := by
      constructor
      · intro h
        obtain ⟨q, hq, rfl⟩ := List.mem_map.mp h
        obtain ⟨hq, hid⟩ := List.mem_filter.mp hq
        have hnode := hp.symm.trans (OrderedDict.get?_eq_some_iff.mpr hq)
        rw [Option.some.inj hnode]
        simpa using hid
      · intro h
        refine List.mem_map.mpr ⟨(position, node), List.mem_filter.mpr ⟨?_, ?_⟩, rfl⟩
        · exact OrderedDict.get?_eq_some_iff.mp hp
        · simpa using h
    by_cases hid : node.nodeId = nodeId
    · simp [hmem, hid, Option.filter]
    · simp [hmem, hid, Option.filter]

theorem get?_placeVnodes (hashToInt : String → ℕ) (node : NodeConfig) (count : ℕ)
    (table : OrderedDict ℕ NodeConfig) (position : ℕ) :
    (placeVnodes hashToInt node count table).get? position =
      if ∃ i < count, hashToInt (vnodeLabel node.nodeId i) = position then some node
      else table.get? position := by
  induction count with
  | zero => simp [placeVnodes]
  | succ count ih =>
    rw [placeVnodes, List.range_succ, List.foldl_append, List.foldl_cons, List.foldl_nil,
      OrderedDict.get?_set]
    change (if _ then _ else (placeVnodes hashToInt node count table).get? position) = _
    rw [ih]
    by_cases hlast : position = hashToInt (vnodeLabel node.nodeId count)
    · rw [if_pos hlast, if_pos ⟨count, Nat.lt_succ_self _, hlast.symm⟩]
    · rw [if_neg hlast]
      refine if_congr ⟨?_, ?_⟩ rfl rfl
      · rintro ⟨i, hi, h⟩
        exact ⟨i, Nat.lt_succ_of_lt hi, h⟩
      · rintro ⟨i, hi, h⟩
        rcases Nat.lt_succ_iff_lt_or_eq.mp hi with hi | rfl
        · exact ⟨i, hi, h⟩
        · exact absurd h.symm hlast

/-! ### The positions in order -/

theorem mem_sortedKeys {r : ConsistentHashRing} {position : ℕ} :
    position ∈ r.sortedKeys ↔ position ∈ r.ring := by
  rw [r.sortedKeys_eq, List.mem_insertionSort, OrderedDict.mem_def]

theorem pairwise_sortedKeys (r : ConsistentHashRing) : r.sortedKeys.Pairwise (· ≤ ·) := by
  rw [r.sortedKeys_eq]
  exact List.pairwise_insertionSort _ _

theorem pairwise_lt_sortedKeys (r : ConsistentHashRing) : r.sortedKeys.Pairwise (· < ·) := by
  have hnodup : r.sortedKeys.Nodup := by
    rw [r.sortedKeys_eq]
    exact (List.perm_insertionSort _ _).nodup_iff.mpr r.ring.keys_nodup
  exact (r.pairwise_sortedKeys.and hnodup).imp fun h => lt_of_le_of_ne h.1 h.2

theorem sortedKeys_eq_nil_iff {r : ConsistentHashRing} :
    r.sortedKeys = [] ↔ r.ring.toList = [] := by
  rw [← List.length_eq_zero_iff, r.sortedKeys_eq, List.length_insertionSort,
    List.length_eq_zero_iff, OrderedDict.keys, List.map_eq_nil_iff]

private theorem eq_of_pairwise_lt {l l' : List ℕ} (h : l.Pairwise (· < ·))
    (h' : l'.Pairwise (· < ·)) (hmem : ∀ a, a ∈ l ↔ a ∈ l') : l = l' := by
  have hperm : l.Perm l' := (List.perm_ext_iff_of_nodup (h.imp ne_of_lt) (h'.imp ne_of_lt)).mpr hmem
  exact hperm.eq_of_pairwise (fun a b _ _ hab hba => absurd hba (lt_asymm hab)) h h'

theorem mem_virtualNodes {r : ConsistentHashRing} {p : ℕ × NodeConfig} :
    p ∈ r.virtualNodes ↔ r.ring.get? p.1 = some p.2 := by
  obtain ⟨position, node⟩ := p
  rw [virtualNodes, List.mem_filterMap]
  constructor
  · rintro ⟨a, -, ha⟩
    obtain ⟨node', hnode, hpair⟩ := Option.map_eq_some_iff.mp ha
    obtain ⟨rfl, rfl⟩ := Prod.mk.inj hpair
    exact hnode
  · intro h
    refine ⟨position, mem_sortedKeys.mpr (OrderedDict.mem_iff_exists_get?.mpr ⟨_, h⟩), ?_⟩
    exact Option.map_eq_some_iff.mpr ⟨node, h, rfl⟩

/-- The records at some positions, as `virtualNodes` lists them. -/
private theorem filterMap_get?_eq_map {r : ConsistentHashRing} {l : List (ℕ × NodeConfig)}
    (hl : ∀ p ∈ l, p ∈ r.virtualNodes) : (l.map Prod.fst).filterMap r.ring.get? = l.map Prod.snd := by
  induction l with
  | nil => rfl
  | cons p l ih =>
    have hp := mem_virtualNodes.mp (hl p List.mem_cons_self)
    rw [List.map_cons, List.map_cons, List.filterMap_cons_some hp,
      ih fun q hq => hl q (List.mem_cons_of_mem _ hq)]

theorem map_fst_virtualNodes (r : ConsistentHashRing) :
    r.virtualNodes.map Prod.fst = r.sortedKeys := by
  have h : ∀ l : List ℕ, (∀ a ∈ l, a ∈ r.ring) →
      (l.filterMap fun position => (r.ring.get? position).map fun node => (position, node)).map
        Prod.fst = l := by
    intro l hl
    induction l with
    | nil => rfl
    | cons a l ih =>
      obtain ⟨node, hnode⟩ := OrderedDict.mem_iff_exists_get?.mp (hl a List.mem_cons_self)
      rw [List.filterMap_cons_some (by rw [hnode]; rfl), List.map_cons,
        ih fun b hb => hl b (List.mem_cons_of_mem _ hb)]
  exact h _ fun a ha => mem_sortedKeys.mp ha

theorem pairwise_virtualNodes (r : ConsistentHashRing) :
    r.virtualNodes.Pairwise fun p q => p.1 < q.1 := by
  have h := r.pairwise_lt_sortedKeys
  rwa [← map_fst_virtualNodes, List.pairwise_map] at h

/-- A list of positions with records in order is determined by its members. -/
theorem virtualNodes_eq_of_mem {r : ConsistentHashRing} {l : List (ℕ × NodeConfig)}
    (hl : l.Pairwise fun p q => p.1 < q.1) (hmem : ∀ p, p ∈ l ↔ r.ring.get? p.1 = some p.2) :
    r.virtualNodes = l := by
  have hperm : r.virtualNodes.Perm l := by
    refine (List.perm_ext_iff_of_nodup ?_ ?_).mpr fun p => mem_virtualNodes.trans (hmem p).symm
    · exact r.pairwise_virtualNodes.imp fun h heq => absurd (congrArg Prod.fst heq) (ne_of_lt h)
    · exact hl.imp fun h heq => absurd (congrArg Prod.fst heq) (ne_of_lt h)
  exact hperm.eq_of_pairwise (fun a b _ _ hab hba => absurd hba (lt_asymm hab))
    r.pairwise_virtualNodes hl

/-! ### The lookups read the clockwise list -/

section Lookup

variable (hashToInt : String → ℕ)

/-- The positions from the index that `bisect_right` finds on, going around once: first those
above the position of the key, then the others. -/
theorem rotate_startIndex (r : ConsistentHashRing) (key : String) :
    r.sortedKeys.rotate (r.startIndex hashToInt key) =
      (r.virtualNodes.filter (fun p => hashToInt key < p.1) ++
        r.virtualNodes.filter fun p => p.1 ≤ hashToInt key).map Prod.fst := by
  set index := bisectRight r.sortedKeys (hashToInt key) with hindex
  have hle : index ≤ r.sortedKeys.length := bisectRight_le_length r.pairwise_sortedKeys _
  have hrotate : r.sortedKeys.rotate (r.startIndex hashToInt key) =
      r.sortedKeys.drop index ++ r.sortedKeys.take index := by
    rw [← List.rotate_eq_drop_append_take hle, startIndex, ← hindex]
    split_ifs with h
    · rw [h, List.rotate_zero, List.rotate_length]
    · rfl
  rw [hrotate, hindex, drop_bisectRight r.pairwise_sortedKeys,
    take_bisectRight r.pairwise_sortedKeys, ← map_fst_virtualNodes, List.filter_map,
    List.filter_map, ← List.map_append]
  rfl

/-- The clockwise list starts at the index that `bisect_right` finds. -/
theorem clockwise_eq_rotate (r : ConsistentHashRing) (key : String) :
    r.clockwise hashToInt key =
      (r.sortedKeys.rotate (r.startIndex hashToInt key)).filterMap r.ring.get? := by
  rw [rotate_startIndex, clockwise]
  refine (filterMap_get?_eq_map fun p hp => ?_).symm
  rcases List.mem_append.mp hp with hp | hp <;> exact List.mem_of_mem_filter hp

theorem startIndex_lt {r : ConsistentHashRing} (h : r.sortedKeys ≠ []) (key : String) :
    r.startIndex hashToInt key < r.sortedKeys.length := by
  have hpos := List.length_pos_iff.mpr h
  have hle := bisectRight_le_length r.pairwise_sortedKeys (hashToInt key)
  rw [startIndex]
  split_ifs with h'
  · exact hpos
  · omega

private theorem nodeAt_rotate {r : ConsistentHashRing} {index offset : ℕ}
    (hoffset : offset < r.sortedKeys.length) :
    r.nodeAt ((index + offset) % r.sortedKeys.length) =
      (r.sortedKeys.rotate index)[offset]?.bind r.ring.get? := by
  rw [nodeAt, List.getElem?_rotate hoffset, Nat.add_comm]

private theorem findSome?_range_getElem? {α β : Type*} (l : List α) (g : α → Option β) :
    ((List.range l.length).findSome? fun i => l[i]?.bind g) = l.findSome? g := by
  induction l with
  | nil => rfl
  | cons a l ih =>
    rw [List.length_cons, List.range_succ_eq_map, List.findSome?_cons, List.findSome?_map,
      List.findSome?_cons, ← ih]
    rfl

theorem findSome?_congr {α β : Type*} {l : List α} {g g' : α → Option β}
    (h : ∀ a ∈ l, g a = g' a) : l.findSome? g = l.findSome? g' := by
  induction l with
  | nil => rfl
  | cons a l ih =>
    rw [List.findSome?_cons, List.findSome?_cons, h a List.mem_cons_self,
      ih fun b hb => h b (List.mem_cons_of_mem _ hb)]

/-- `get_node` answers the first record clockwise. -/
theorem getNode_eq_head? (r : ConsistentHashRing) (key : String) :
    r.getNode hashToInt key = (r.clockwise hashToInt key).head? := by
  rw [getNode, clockwise_eq_rotate]
  by_cases h : r.ring.toList = []
  · rw [if_pos h, sortedKeys_eq_nil_iff.mpr h]
    rfl
  · have hne : r.sortedKeys ≠ [] := fun h' => h (sortedKeys_eq_nil_iff.mp h')
    have hstart := startIndex_lt hashToInt hne key
    have hnode := @nodeAt_rotate r (r.startIndex hashToInt key) 0 (List.length_pos_iff.mpr hne)
    rw [Nat.add_zero, Nat.mod_eq_of_lt hstart] at hnode
    rw [if_neg h, hnode]
    cases hl : r.sortedKeys.rotate (r.startIndex hashToInt key) with
    | nil => exact absurd (List.rotate_eq_nil_iff.mp hl) hne
    | cons a l =>
      have ha : a ∈ r.sortedKeys := List.mem_rotate.mp (hl ▸ List.mem_cons_self)
      obtain ⟨node, hnode⟩ := OrderedDict.mem_iff_exists_get?.mp (mem_sortedKeys.mp ha)
      rw [List.filterMap_cons_some hnode, List.head?_cons]
      exact hnode

/-- `get_successor_for_key` answers the first record clockwise with another id. -/
theorem getSuccessorForKey_eq_find? (r : ConsistentHashRing) (key : String)
    (excludeNodeId : Option String) :
    r.getSuccessorForKey hashToInt key excludeNodeId =
      (r.clockwise hashToInt key).find? fun node => excludeNodeId ≠ some node.nodeId := by
  rw [getSuccessorForKey, clockwise_eq_rotate]
  by_cases h : r.ring.toList = []
  · rw [if_pos h, sortedKeys_eq_nil_iff.mpr h]
    rfl
  · rw [if_neg h]
    set index := r.startIndex hashToInt key
    let g : ℕ → Option NodeConfig := fun position => (r.ring.get? position).bind fun candidate =>
      if excludeNodeId = some candidate.nodeId then none else some candidate
    have hscan := findSome?_range_getElem? (r.sortedKeys.rotate index) g
    rw [List.length_rotate] at hscan
    have hfind : ∀ l : List ℕ, l.findSome? g =
        (l.filterMap r.ring.get?).find? fun node => excludeNodeId ≠ some node.nodeId := by
      intro l
      induction l with
      | nil => rfl
      | cons a l ih =>
        rw [List.findSome?_cons, ih]
        cases ha : r.ring.get? a with
        | none => simp [g, ha]
        | some node =>
          rw [List.filterMap_cons_some ha]
          by_cases hid : excludeNodeId = some node.nodeId
          · rw [List.find?_cons_of_neg (by simpa using hid)]
            simp [g, ha, hid]
          · rw [List.find?_cons_of_pos (by simpa using hid)]
            simp [g, ha, hid]
    rw [← hfind, ← hscan]
    refine findSome?_congr fun offset hoffset => ?_
    rw [nodeAt_rotate (List.mem_range.mp hoffset), Option.bind_assoc]

end Lookup

end ConsistentHashRing

end DistributedCache
