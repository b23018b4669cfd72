import DistributedCache.Cluster.Models
import DistributedCache.Library.OrderedDict
import Mathlib.Data.List.Sort

/-!
# The in-memory store of a node

A store keeps its entries in recency order, the least recently used first, and evicts from the
front when it holds more than `maxItems`. Entries may expire: readers drop an expired entry when
they meet it, and a background pass drops those whose ticket in the expiration heap has come
due. The stored value `none` is Python's `None`.

The heap is kept as a list in ascending order, whose head is its minimum; each operation takes
the clock reading it makes.

Source: `distributed_cache/cache/store.py`.

## Main definitions

* `CacheEntry`, `CacheStore`.
* `CacheStore.put`, `CacheStore.get`, `CacheStore.delete`, `CacheStore.clear`,
  `CacheStore.items`, `CacheStore.snapshot`, `CacheStore.cleanup`.
* `CacheStore.HasRoom` : a put evicts nothing.

## Main results

* `CacheStore.get?_entries_put_none`, `CacheStore.get?_entries_delete`,
  `CacheStore.get?_entries_get` : the operations on the entries, without lifetimes or eviction.
* `CacheStore.fst_get` : what a read answers then.
-/

namespace DistributedCache

open Library

variable {V : Type*}

structure CacheEntry (V : Type*) where
  value : Option V
  expiresAt : Option Time
  deriving DecidableEq

/-- `_is_expired` at the reading `now`. -/
def CacheEntry.isExpired (entry : CacheEntry V) (now : Time) : Bool :=
  match entry.expiresAt with
  | none => false
  | some expiresAt => decide (expiresAt ≤ now)

@[simp] theorem CacheEntry.isExpired_of_none {entry : CacheEntry V} (h : entry.expiresAt = none)
    (now : Time) : entry.isExpired now = false := by
  rw [isExpired, h]

structure CacheStore (V : Type*) where
  maxItems : ℕ
  maxItems_pos : 0 < maxItems
  entries : OrderedDict String (CacheEntry V)
  expirationHeap : List (Time × String)

namespace CacheStore

/-- The empty store of `CacheStore(max_items)`; the source refuses `max_items <= 0`. -/
def init (maxItems : ℕ) (h : 0 < maxItems) : CacheStore V := ⟨maxItems, h, .empty, []⟩

/-- The order of Python's pairs, on which the heap is built. -/
def ticketLe (p q : Time × String) : Prop := p.1 < q.1 ∨ p.1 = q.1 ∧ p.2 ≤ q.2

instance : DecidableRel ticketLe := fun p q =>
  inferInstanceAs (Decidable (p.1 < q.1 ∨ p.1 = q.1 ∧ p.2 ≤ q.2))

/-- Pop entries from the front while there are more than `maxItems`. -/
def evictEntries {α : Type*} (maxItems : ℕ) : List α → List α
  | [] => []
  | a :: l => if maxItems < (a :: l).length then evictEntries maxItems l else a :: l

theorem evictEntries_sublist {α : Type*} (maxItems : ℕ) :
    (l : List α) → (evictEntries maxItems l).Sublist l
  | [] => List.Sublist.refl _
  | a :: l => by
      rw [evictEntries]
      split_ifs
      · exact (evictEntries_sublist maxItems l).cons a
      · exact List.Sublist.refl _

theorem evictEntries_of_length_le {α : Type*} {maxItems : ℕ} {l : List α}
    (h : l.length ≤ maxItems) : evictEntries maxItems l = l := by
  cases l with
  | nil => rfl
  | cons a l => rw [evictEntries, if_neg (not_lt.mpr h)]

/-- `_evict_lru_locked`. -/
def evictLru (s : CacheStore V) : CacheStore V :=
  { s with
    entries :=
      s.entries.ofSublist (evictEntries s.maxItems s.entries.toList) (evictEntries_sublist _ _) }

/-- `delete`: whether there was an entry, and the store without it. -/
def delete (s : CacheStore V) (key : String) : Bool × CacheStore V :=
  ((s.entries.get? key).isSome, { s with entries := s.entries.pop key })

/-- The locked part of `put`: the entry goes to the recent end, its ticket into the heap. -/
def insert (s : CacheStore V) (key : String) (entry : CacheEntry V) : CacheStore V :=
  evictLru
    { s with
      entries := (s.entries.pop key).set key entry
      expirationHeap := match entry.expiresAt with
        | none => s.expirationHeap
        | some expiresAt => s.expirationHeap.orderedInsert ticketLe (expiresAt, key) }

/-- `put`: a lifetime that is not positive deletes the key instead. -/
def put (s : CacheStore V) (now : Time) (key : String) (value : Option V)
    (ttlSeconds : Option Time) : CacheStore V :=
  match ttlSeconds with
  | none => s.insert key ⟨value, none⟩
  | some ttlSeconds =>
    if ttlSeconds ≤ 0 then (s.delete key).2 else s.insert key ⟨value, some (now + ttlSeconds)⟩

def get (s : CacheStore V) (now : Time) (key : String) : Option V × CacheStore V :=
  match s.entries.get? key with
  | none => (none, s)
  | some entry =>
    if entry.isExpired now then (none, { s with entries := s.entries.pop key })
    else (entry.value, { s with entries := s.entries.moveToEnd key })

def clear (s : CacheStore V) : CacheStore V := { s with entries := .empty }

def size (s : CacheStore V) : ℕ := s.entries.size

/-- The store after `items` or `snapshot` dropped the expired entries it met. -/
def dropExpired (s : CacheStore V) (now : Time) : CacheStore V :=
  { s with entries := s.entries.filter fun p => !p.2.isExpired now }

/-- `items`: the unexpired keys with their values. -/
def items (s : CacheStore V) (now : Time) : List (String × Option V) × CacheStore V :=
  (((s.dropExpired now).entries.toList.map fun p => (p.1, p.2.value)), s.dropExpired now)

/-- `snapshot`: the unexpired entries. -/
def snapshot (s : CacheStore V) (now : Time) :
    OrderedDict String (CacheEntry V) × CacheStore V :=
  ((s.dropExpired now).entries, s.dropExpired now)

/-- The loop of one cleanup pass: due tickets are popped, and each takes the entry of its key
along if that entry has really expired. -/
def cleanupLoop (now : Time) : List (Time × String) → OrderedDict String (CacheEntry V) →
    List (Time × String) × OrderedDict String (CacheEntry V)
  | [], entries => ([], entries)
  | (expiresAt, key) :: heap, entries =>
    if now < expiresAt then ((expiresAt, key) :: heap, entries)
    else
      match entries.get? key with
      | none => cleanupLoop now heap entries
      | some entry =>
        cleanupLoop now heap (if entry.isExpired now then entries.pop key else entries)

/-- One pass of `_cleanup_worker`. -/
def cleanup (s : CacheStore V) (now : Time) : CacheStore V :=
  { s with
    expirationHeap := (cleanupLoop now s.expirationHeap s.entries).1
    entries := (cleanupLoop now s.expirationHeap s.entries).2 }

/-! ### Without lifetimes and eviction -/

/-- A put of the key evicts nothing: there is room for the entry once the old one is popped. -/
def HasRoom (s : CacheStore V) (key : String) : Prop := (s.entries.pop key).size < s.maxItems

instance (s : CacheStore V) (key : String) : Decidable (s.HasRoom key) :=
  inferInstanceAs (Decidable (_ < _))

/-- No entry of the store has a lifetime. -/
def NoTtl (s : CacheStore V) : Prop :=
  ∀ key entry, s.entries.get? key = some entry → entry.expiresAt = none

theorem entries_insert {s : CacheStore V} {key : String} (h : s.HasRoom key)
    (entry : CacheEntry V) : (s.insert key entry).entries = (s.entries.pop key).set key entry := by
  have hlength : ((s.entries.pop key).set key entry).toList.length ≤ s.maxItems := by
    rw [OrderedDict.toList_pop_set, List.length_append, List.length_singleton]
    exact h
  exact OrderedDict.ext_toList (evictEntries_of_length_le hlength)

theorem get?_entries_insert {s : CacheStore V} {key : String} (h : s.HasRoom key)
    (entry : CacheEntry V) (k : String) : (s.insert key entry).entries.get? k =
      if k = key then some entry else s.entries.get? k := by
  rw [entries_insert h, OrderedDict.get?_set]
  split_ifs with hk
  · rfl
  · rw [OrderedDict.get?_pop_of_ne _ hk]

theorem get?_entries_put_none {s : CacheStore V} {key : String} (h : s.HasRoom key) (now : Time)
    (value : Option V) (k : String) : (s.put now key value none).entries.get? k =
      if k = key then some ⟨value, none⟩ else s.entries.get? k :=
  get?_entries_insert h _ k

@[simp] theorem maxItems_put (s : CacheStore V) (now : Time) (key : String) (value : Option V)
    (ttlSeconds : Option Time) : (s.put now key value ttlSeconds).maxItems = s.maxItems := by
  unfold put
  split
  · rfl
  · split_ifs <;> rfl

theorem get?_entries_delete (s : CacheStore V) (key k : String) :
    (s.delete key).2.entries.get? k = if k = key then none else s.entries.get? k :=
  OrderedDict.get?_pop s.entries key k

/-- Without lifetimes a read answers the stored value. -/
theorem fst_get {s : CacheStore V} (h : s.NoTtl) (now : Time) (key : String) :
    (s.get now key).1 = (s.entries.get? key).bind CacheEntry.value := by
  unfold get
  split
  · rename_i hentry
    rw [hentry, Option.bind_none]
  · rename_i entry hentry
    rw [CacheEntry.isExpired_of_none (h key entry hentry), hentry, Option.bind_some]
    rfl

/-- Without lifetimes a read only moves an entry in the recency order. -/
theorem get?_entries_get {s : CacheStore V} (h : s.NoTtl) (now : Time) (key k : String) :
    (s.get now key).2.entries.get? k = s.entries.get? k := by
  unfold get
  split
  · rfl
  · rename_i entry hentry
    rw [CacheEntry.isExpired_of_none (h key entry hentry)]
    exact OrderedDict.get?_moveToEnd s.entries key k

@[simp] theorem maxItems_get (s : CacheStore V) (now : Time) (key : String) :
    (s.get now key).2.maxItems = s.maxItems := by
  unfold get
  split
  · rfl
  · split_ifs <;> rfl

/-- Without lifetimes there is nothing to drop. -/
theorem dropExpired_of_noTtl {s : CacheStore V} (h : s.NoTtl) (now : Time) :
    s.dropExpired now = s := by
  have hentries : (s.entries.filter fun p => !p.2.isExpired now) = s.entries := by
    refine OrderedDict.ext_toList (List.filter_eq_self.mpr fun p hp => ?_)
    rw [CacheEntry.isExpired_of_none (h p.1 p.2 (OrderedDict.get?_eq_some_iff.mpr hp))]
    rfl
  rw [dropExpired, hentries]

/-- Without lifetimes a cleanup pass drops no entry. -/
theorem entries_cleanup {s : CacheStore V} (h : s.NoTtl) (now : Time) :
    (s.cleanup now).entries = s.entries := by
  have hloop : ∀ heap : List (Time × String), (cleanupLoop now heap s.entries).2 = s.entries := by
    intro heap
    induction heap with
    | nil => rfl
    | cons ticket heap ih =>
      obtain ⟨expiresAt, key⟩ := ticket
      rw [cleanupLoop]
      split_ifs
      · rfl
      · split
        · exact ih
        · rename_i entry hentry
          rw [CacheEntry.isExpired_of_none (h key entry hentry)]
          exact ih
  exact hloop _

end CacheStore

end DistributedCache
