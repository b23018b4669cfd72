import DistributedCache.Cache.Operations

/-!
# Stores of different capacities

Two stores with different capacities perform the same operations at the same readings of the
clock. Their heaps stay equal, and the entries of the smaller store stay among those of the
larger one, in the same order: whenever the larger store evicts, the smaller one has evicted at
least as far.

## Main definitions

* `CacheStore.Within` : the smaller store inside the larger one.

## Main results

* `CacheStore.Within.perform` : every operation keeps the smaller store inside the larger one.
* `CacheStore.capacity_never_hurts` : what the smaller store finds, the larger one finds too.
-/

namespace DistributedCache

open Library

variable {V : Type*}

namespace CacheStore

/-- The entries of `s` are among those of `s'`, in the same order, and `s'` has no more entries
beyond them than its capacity allows. The expiration heaps are the same. -/
structure Within (s s' : CacheStore V) : Prop where
  entries : Inside s.maxItems s'.maxItems s.entries.toList s'.entries.toList
  heap : s.expirationHeap = s'.expirationHeap

variable {s s' : CacheStore V}

theorem Within.get? (h : Within s s') {key : String} {entry : CacheEntry V}
    (hentry : s.entries.get? key = some entry) : s'.entries.get? key = some entry := by
  rw [OrderedDict.get?_eq_some_iff] at hentry ⊢
  exact h.entries.sublist.subset hentry

/-- Both stores drop the same kind of entries. -/
theorem Within.filter (h : Within s s') (p : String × CacheEntry V → Bool) :
    Inside s.maxItems s'.maxItems (s.entries.filter p).toList (s'.entries.filter p).toList :=
  h.entries.filter p

theorem Within.insert (h : Within s s') (key : String) (entry : CacheEntry V) :
    Within (s.insert key entry) (s'.insert key entry) := by
  constructor
  · rw [toList_entries_insert, toList_entries_insert]
    exact ((h.filter fun p => p.1 ≠ key).concat (key, entry)).rtake
  · rw [CacheStore.insert, CacheStore.insert, evictLru, evictLru, h.heap]

/-- A read may find the key in the larger store only; it moves the entry to the end there. -/
theorem Within.get (h : Within s s') (now : Time) (key : String) :
    Within (s.get now key).2 (s'.get now key).2 := by
  have habsent : s.entries.get? key = none → ∀ p ∈ s.entries.toList, decide (p.1 ≠ key) = true := by
    intro hnone p hp
    refine decide_eq_true ?_
    rintro rfl
    cases hnone.symm.trans (OrderedDict.get?_eq_some_iff.mpr hp)
  cases hentry : s.entries.get? key with
  | some entry =>
    rw [CacheStore.get, CacheStore.get, hentry, h.get? hentry]
    dsimp only
    split_ifs with hexpired
    · exact ⟨h.filter _, h.heap⟩
    · refine ⟨?_, h.heap⟩
      dsimp only
      rw [OrderedDict.moveToEnd, OrderedDict.moveToEnd, hentry, h.get? hentry]
      dsimp only
      rw [OrderedDict.toList_pop_set, OrderedDict.toList_pop_set]
      exact (h.filter _).concat _
  | none =>
    rw [CacheStore.get, CacheStore.get, hentry]
    cases hentry' : s'.entries.get? key with
    | none => exact h
    | some entry =>
      dsimp only
      split_ifs with hexpired
      · exact ⟨h.entries.filter_right (habsent hentry), h.heap⟩
      · refine ⟨?_, h.heap⟩
        have hmem : key ∈ s'.entries := OrderedDict.mem_iff_exists_get?.mpr ⟨entry, hentry'⟩
        dsimp only
        rw [OrderedDict.moveToEnd, hentry']
        dsimp only
        rw [OrderedDict.toList_pop_set]
        exact h.entries.moved_right (habsent hentry) (OrderedDict.size_pop_add_one hmem) _

/-- Every operation keeps the smaller store inside the larger one. -/
theorem Within.perform (h : Within s s') (now : Time) (op : StoreOp V) :
    Within (s.perform now op) (s'.perform now op) := by
  cases op with
  | put key value ttlSeconds =>
    rw [CacheStore.perform, CacheStore.perform, put_eq, put_eq]
    cases putEntry now value ttlSeconds with
    | none => exact ⟨h.filter _, h.heap⟩
    | some entry => exact h.insert key entry
  | get key => exact h.get now key
  | delete key => exact ⟨h.filter _, h.heap⟩
  | clear => exact ⟨.nil h.entries.le, h.heap⟩
  | items => exact ⟨h.filter _, h.heap⟩
  | snapshot => exact ⟨h.filter _, h.heap⟩
  | cleanup =>
    constructor
    · rw [CacheStore.perform, CacheStore.perform, entries_cleanup_eq, entries_cleanup_eq, h.heap]
      exact h.filter _
    · change (cleanupLoop _ _ _).1 = (cleanupLoop _ _ _).1
      rw [cleanupLoop_eq, cleanupLoop_eq, h.heap]

theorem Within.run (h : Within s s') (ops : List (Time × StoreOp V)) :
    Within (s.run ops) (s'.run ops) := by
  induction ops using List.reverseRecOn with
  | nil => exact h
  | append_singleton ops op ih =>
    rw [run_concat, run_concat]
    exact ih.perform op.1 op.2

/-- **More capacity never hurts.** After the same operations at the same readings of the clock,
the entries of the store with the smaller capacity, in their recency order and with their values
and expiry times, are a subsequence of those of the store with the larger capacity, and every read
that finds a value in the smaller store finds the same value in the larger one. -/
theorem capacity_never_hurts {n m : ℕ} (hn : 0 < n) (hnm : n ≤ m)
    (ops : List (Time × StoreOp V)) :
    ((init n hn).run ops).entries.toList.Sublist
      ((init m (hn.trans_le hnm)).run ops).entries.toList ∧
    ∀ now key v, (((init n hn).run ops).get now key).1 = some v →
      (((init m (hn.trans_le hnm)).run ops).get now key).1 = some v := by
  have hinit : Within (init n hn : CacheStore V) (init m (hn.trans_le hnm)) := ⟨.nil hnm, rfl⟩
  have h := hinit.run ops
  refine ⟨h.entries.sublist, fun now key v hfound => ?_⟩
  rw [fst_get_eq_some_iff] at hfound ⊢
  obtain ⟨entry, hentry, hlive, hvalue⟩ := hfound
  exact ⟨entry, h.get? hentry, hlive, hvalue⟩

/-- `capacity_never_hurts` where a read finds a key in the larger store only. -/
theorem capacity_never_hurts_one_two :
    let ops : List (Time × StoreOp ℕ) := [(0, .put "a" (some 1) none), (1, .put "b" (some 2) (some 5)),
      (2, .get "a"), (3, .put "c" (some 3) none)]
    ((init 1 Nat.one_pos).run ops).entries.toList.Sublist
      ((init 2 Nat.two_pos).run ops).entries.toList := by
  intro ops
  exact (capacity_never_hurts Nat.one_pos (by decide) ops).1

end CacheStore

end DistributedCache
