import DistributedCache.Cache.Store
import DistributedCache.Library.Recency
import Mathlib.Algebra.Order.Ring.Rat

/-!
# Timed runs of a store

A run performs operations one after another, each at its reading of the clock. Every operation
drops some entries, moves one to the recent end, or inserts one there and evicts from the front.

Source: `distributed_cache/cache/store.py`.

## Main definitions

* `StoreOp`, `CacheStore.perform`, `CacheStore.run` : operations and their runs.
* `CacheStore.dueKeys` : the keys whose tickets a cleanup pass takes.

## Main results

* `CacheStore.cleanupLoop_eq` : a cleanup pass drops the expired entries among the due keys.
* `CacheStore.Effect`, `CacheStore.effect_perform` : what an operation does to the entries.
-/

namespace DistributedCache

open Library

variable {V : Type*}

/-- An operation on a store, or a pass of its cleanup thread. -/
inductive StoreOp (V : Type*)
  | put (key : String) (value : Option V) (ttlSeconds : Option Time)
  | get (key : String)
  | delete (key : String)
  | clear
  | items
  | snapshot
  | cleanup

namespace CacheStore

/-- The store after one operation at the reading `now`. -/
def perform (s : CacheStore V) (now : Time) : StoreOp V → CacheStore V
  | .put key value ttlSeconds => s.put now key value ttlSeconds
  | .get key => (s.get now key).2
  | .delete key => (s.delete key).2
  | .clear => s.clear
  | .items => (s.items now).2
  | .snapshot => (s.snapshot now).2
  | .cleanup => s.cleanup now

/-- The store after operations with their readings of the clock. -/
def run (s : CacheStore V) (ops : List (Time × StoreOp V)) : CacheStore V :=
  ops.foldl (fun s op => s.perform op.1 op.2) s

theorem run_concat (s : CacheStore V) (ops : List (Time × StoreOp V)) (now : Time)
    (op : StoreOp V) : s.run (ops ++ [(now, op)]) = (s.run ops).perform now op := by
  rw [run, List.foldl_append, List.foldl_cons, List.foldl_nil, run]

theorem evictEntries_eq_rtake {α : Type*} (maxItems : ℕ) (l : List α) :
    evictEntries maxItems l = l.rtake maxItems := by
  induction l with
  | nil => rw [evictEntries, List.rtake_nil]
  | cons a l ih =>
    rw [evictEntries, List.rtake]
    split_ifs with h
    · have hsucc : (a :: l).length - maxItems = (l.length - maxItems) + 1 := by
        rw [List.length_cons] at h ⊢
        omega
      rw [ih, hsucc, List.drop_succ_cons, List.rtake]
    · rw [Nat.sub_eq_zero_of_le (not_lt.mp h), List.drop_zero]

theorem toList_entries_insert (s : CacheStore V) (key : String) (entry : CacheEntry V) :
    (s.insert key entry).entries.toList =
      ((s.entries.pop key).toList ++ [(key, entry)]).rtake s.maxItems := by
  change evictEntries s.maxItems ((s.entries.pop key).set key entry).toList = _
  rw [evictEntries_eq_rtake, OrderedDict.toList_pop_set]

/-- The entry that is inserted is not evicted. -/
theorem get?_entries_insert_self (s : CacheStore V) (key : String) (entry : CacheEntry V) :
    (s.insert key entry).entries.get? key = some entry := by
  obtain ⟨n, hn⟩ : ∃ n, s.maxItems = n + 1 := ⟨_, (Nat.sub_add_cancel s.maxItems_pos).symm⟩
  rw [OrderedDict.get?_eq_some_iff, toList_entries_insert, hn, List.rtake_concat_succ]
  exact List.mem_append_right _ List.mem_cons_self

/-! ### The cleanup pass -/

/-- The keys of the tickets that have come due at `now`. -/
def dueKeys (now : Time) (heap : List (Time × String)) : List String :=
  (heap.takeWhile fun ticket => ticket.1 ≤ now).map Prod.snd

/-- A due ticket takes the entry of its key along if that entry has expired. -/
theorem cleanupLoop_of_due {now expiresAt : Time} (hdue : expiresAt ≤ now) (key : String)
    (heap : List (Time × String)) (entries : OrderedDict String (CacheEntry V)) :
    cleanupLoop now ((expiresAt, key) :: heap) entries = cleanupLoop now heap
      (entries.filter fun p => !(decide (p.1 = key) && p.2.isExpired now)) := by
  rw [cleanupLoop, if_neg (not_lt.mpr hdue)]
  cases hentry : entries.get? key with
  | none =>
    have hne : ∀ p ∈ entries.toList, p.1 ≠ key := by
      rintro p hp rfl
      cases hentry.symm.trans (OrderedDict.get?_eq_some_iff.mpr hp)
    refine congrArg (cleanupLoop now heap) (OrderedDict.ext_toList ?_)
    refine (List.filter_eq_self.mpr fun p hp => ?_).symm
    simp [hne p hp]
  | some entry =>
    have hsame : ∀ p ∈ entries.toList, p.1 = key → p.2 = entry := by
      rintro p hp rfl
      exact Option.some.inj ((OrderedDict.get?_eq_some_iff.mpr hp).symm.trans hentry)
    refine congrArg (cleanupLoop now heap) (OrderedDict.ext_toList ?_)
    by_cases hexpired : entry.isExpired now = true
    · rw [if_pos hexpired]
      refine List.filter_congr fun p hp => ?_
      by_cases hk : p.1 = key
      · simp [hk, hsame p hp hk, hexpired]
      · simp [hk]
    · rw [if_neg hexpired]
      refine (List.filter_eq_self.mpr fun p hp => ?_).symm
      by_cases hk : p.1 = key
      · simp [hsame p hp hk, hexpired]
      · simp [hk]

/-- A cleanup pass takes the due tickets, and drops the expired entries of their keys. -/
theorem cleanupLoop_eq (now : Time) (heap : List (Time × String))
    (entries : OrderedDict String (CacheEntry V)) :
    cleanupLoop now heap entries = (heap.dropWhile fun ticket => ticket.1 ≤ now,
      entries.filter fun p => !(decide (p.1 ∈ dueKeys now heap) && p.2.isExpired now)) := by
  induction heap generalizing entries with
  | nil =>
    refine Prod.ext rfl (OrderedDict.ext_toList ?_)
    simp [cleanupLoop, dueKeys]
  | cons ticket heap ih =>
    obtain ⟨expiresAt, key⟩ := ticket
    by_cases hdue : expiresAt ≤ now
    · have hkeys : dueKeys now ((expiresAt, key) :: heap) = key :: dueKeys now heap := by
        simp [dueKeys, hdue]
      rw [cleanupLoop_of_due hdue, ih, hkeys, List.dropWhile_cons_of_pos (by simpa using hdue)]
      refine Prod.ext rfl (OrderedDict.ext_toList ?_)
      simp only [OrderedDict.toList_filter, List.filter_filter]
      refine List.filter_congr fun p _ => ?_
      by_cases hk : p.1 = key <;> cases p.2.isExpired now <;> simp [hk]
    · have hkeys : dueKeys now ((expiresAt, key) :: heap) = [] := by
        simp [dueKeys, hdue]
      rw [cleanupLoop, if_pos (not_le.mp hdue), hkeys,
        List.dropWhile_cons_of_neg (by simpa using hdue)]
      refine Prod.ext rfl (OrderedDict.ext_toList ?_)
      simp

theorem entries_cleanup_eq (s : CacheStore V) (now : Time) : (s.cleanup now).entries =
    s.entries.filter fun p =>
      !(decide (p.1 ∈ dueKeys now s.expirationHeap) && p.2.isExpired now) := by
  rw [cleanup, cleanupLoop_eq]

/-! ### What an operation does to the entries -/

/-- The entry that a put stores; `none` when it deletes the key instead. -/
def putEntry (now : Time) (value : Option V) (ttlSeconds : Option Time) : Option (CacheEntry V) :=
  match ttlSeconds with
  | none => some ⟨value, none⟩
  | some ttlSeconds => if ttlSeconds ≤ 0 then none else some ⟨value, some (now + ttlSeconds)⟩

theorem value_of_putEntry {now : Time} {value : Option V} {ttlSeconds : Option Time}
    {entry : CacheEntry V} (h : putEntry now value ttlSeconds = some entry) :
    entry.value = value := by
  cases ttlSeconds with
  | none => rw [← Option.some.inj h]
  | some ttlSeconds =>
    rw [putEntry] at h
    split_ifs at h
    rw [← Option.some.inj h]

theorem put_eq (s : CacheStore V) (now : Time) (key : String) (value : Option V)
    (ttlSeconds : Option Time) : s.put now key value ttlSeconds =
      match putEntry now value ttlSeconds with
      | none => (s.delete key).2
      | some entry => s.insert key entry := by
  cases ttlSeconds with
  | none => rfl
  | some ttlSeconds =>
    rw [put, putEntry]
    split_ifs <;> rfl

/-- The entry of a key after a put of the key: what was stored is not evicted at once. -/
theorem get?_entries_put (s : CacheStore V) (now : Time) (key : String) (value : Option V)
    (ttlSeconds : Option Time) :
    (s.put now key value ttlSeconds).entries.get? key = putEntry now value ttlSeconds := by
  rw [put_eq]
  cases putEntry now value ttlSeconds with
  | none => rw [get?_entries_delete, if_pos rfl]
  | some entry => exact get?_entries_insert_self s key entry

/-- What an operation writes for a key: nothing, or that the key is gone, or an entry. -/
def written (now : Time) (key : String) : StoreOp V → Option (Option (CacheEntry V))
  | .put k value ttlSeconds => if k = key then some (putEntry now value ttlSeconds) else none
  | .delete k => if k = key then some none else none
  | .clear => some none
  | .get _ | .items | .snapshot | .cleanup => none

/-- The key that an operation puts, or that a read finds unexpired. -/
def touched (s : CacheStore V) (now : Time) : StoreOp V → Option String
  | .put key _ _ => some key
  | .get key =>
    if (s.entries.get? key).any fun entry => !entry.isExpired now then some key else none
  | .delete _ | .clear | .items | .snapshot | .cleanup => none

/-- What an operation does to the entries of a store: it drops expired ones and those that it
deletes, moves one that a read found to the end, or inserts one. -/
inductive Effect (s : CacheStore V) (now : Time) (op : StoreOp V) (s' : CacheStore V) : Prop
  | dropped (p : String × CacheEntry V → Bool) (hentries : s'.entries = s.entries.filter p)
      (hdropped : ∀ q ∈ s.entries.toList, p q = false →
        q.2.isExpired now = true ∨ written now q.1 op = some none)
      (hkept : ∀ q ∈ s.entries.toList, p q = true → written now q.1 op = none)
      (hwritten : ∀ key entry, written now key op ≠ some (some entry))
      (htouched : ∀ key, s.touched now op = some key → written now key op = some none)
  | moved (key : String) (entry : CacheEntry V) (hop : op = .get key)
      (hentry : s.entries.get? key = some entry) (hlive : entry.isExpired now = false)
      (hentries : s'.entries = s.entries.moveToEnd key)
  | inserted (key : String) (value : Option V) (ttlSeconds : Option Time) (entry : CacheEntry V)
      (hop : op = .put key value ttlSeconds) (hentry : putEntry now value ttlSeconds = some entry)
      (hentries : s'.entries = (s.insert key entry).entries)

/-- Dropping expired entries is an effect of an operation that writes nothing. -/
private theorem Effect.expired {s s' : CacheStore V} {now : Time} {op : StoreOp V}
    (p : String × CacheEntry V → Bool) (hentries : s'.entries = s.entries.filter p)
    (hexpired : ∀ q ∈ s.entries.toList, p q = false → q.2.isExpired now = true)
    (hop : ∀ key, written now key op = none) (htouched : s.touched now op = none) :
    Effect s now op s' := by
  refine .dropped p hentries (fun q hq hp => Or.inl (hexpired q hq hp)) (fun q _ _ => hop q.1)
    (fun key entry h => ?_) fun key h => ?_
  · cases (hop key).symm.trans h
  · cases htouched.symm.trans h

/-- Deleting a key is an effect of an operation that deletes this key only. -/
private theorem Effect.deleted {s : CacheStore V} {now : Time} {op : StoreOp V} {key : String}
    (hop : ∀ k, written now k op = if key = k then some none else none)
    (htouched : ∀ k, s.touched now op = some k → key = k) : Effect s now op (s.delete key).2 := by
  refine .dropped (fun p => p.1 ≠ key) rfl (fun q _ hq => Or.inr ?_) (fun q _ hq => ?_)
    (fun k entry h => ?_) fun k h => by rw [hop, if_pos (htouched k h)]
  · have hkey : q.1 = key := by simpa using hq
    rw [hop, if_pos hkey.symm]
  · have hkey : q.1 ≠ key := by simpa using hq
    rw [hop, if_neg hkey.symm]
  · rw [hop] at h
    split_ifs at h
    cases h

theorem effect_perform (s : CacheStore V) (now : Time) (op : StoreOp V) :
    Effect s now op (s.perform now op) := by
  cases op with
  | put key value ttlSeconds =>
    rw [perform, put_eq]
    cases hentry : putEntry now value ttlSeconds with
    | none => exact .deleted (fun k => by rw [written, hentry]) fun k => Option.some.inj
    | some entry => exact .inserted key value ttlSeconds entry rfl hentry rfl
  | get key =>
    rw [perform, get]
    cases hentry : s.entries.get? key with
    | none =>
      refine .expired (fun _ => true) (OrderedDict.ext_toList ?_) (fun q _ h => ?_)
        (fun _ => rfl) ?_
      · simp
      · cases h
      · simp [touched, hentry]
    | some entry =>
      dsimp only
      split_ifs with hexpired
      · refine .expired (fun p => p.1 ≠ key) rfl (fun q hq h => ?_) (fun _ => rfl) ?_
        · obtain rfl : q.1 = key := by simpa using h
          have hq' := OrderedDict.get?_eq_some_iff.mpr hq
          rwa [Option.some.inj (hq'.symm.trans hentry)]
        · simp [touched, hentry, hexpired]
      · exact .moved key entry rfl hentry (by simpa using hexpired) rfl
  | delete key => exact .deleted (fun k => rfl) fun k h => by cases h
  | clear =>
    refine .dropped (fun _ => false) (OrderedDict.ext_toList ?_) (fun _ _ _ => Or.inr rfl)
      (fun _ _ h => ?_) (fun _ _ h => ?_) fun _ _ => rfl
    · exact (List.filter_eq_nil_iff.mpr fun _ _ => Bool.false_ne_true).symm
    · cases h
    · cases h
  | items => exact .expired _ rfl (fun q _ h => by simpa using h) (fun _ => rfl) rfl
  | snapshot => exact .expired _ rfl (fun q _ h => by simpa using h) (fun _ => rfl) rfl
  | cleanup =>
    refine .expired _ (entries_cleanup_eq s now) (fun q _ h => ?_) (fun _ => rfl) rfl
    rw [Bool.not_eq_false', Bool.and_eq_true] at h
    exact h.2

/-- An entry after an operation was there before, or the operation wrote it. -/
theorem get?_perform {s : CacheStore V} {now : Time} {op : StoreOp V} {key : String}
    {entry : CacheEntry V} (h : (s.perform now op).entries.get? key = some entry) :
    s.entries.get? key = some entry ∨ written now key op = some (some entry) := by
  cases effect_perform s now op with
  | dropped p hentries hdropped hkept hwritten htouched =>
    rw [hentries, OrderedDict.get?_filter, Option.filter_eq_some_iff] at h
    exact Or.inl h.1
  | moved k entry' hop hentry hlive hentries =>
    rw [hentries, OrderedDict.get?_moveToEnd] at h
    exact Or.inl h
  | inserted k value ttlSeconds entry' hop hentry hentries =>
    rw [hentries] at h
    by_cases hk : k = key
    · subst hk hop
      rw [get?_entries_insert_self] at h
      rw [written, if_pos rfl, hentry, h]
      exact Or.inr rfl
    · rw [OrderedDict.get?_eq_some_iff, toList_entries_insert] at h
      rcases List.mem_append.mp (List.mem_of_mem_drop h) with h | h
      · have hget : (s.entries.pop k).get? key = some entry := OrderedDict.get?_eq_some_iff.mpr h
        rw [OrderedDict.get?_pop_of_ne _ (Ne.symm hk)] at hget
        exact Or.inl hget
      · exact absurd (Prod.mk.inj (List.mem_singleton.mp h)).1.symm hk

theorem maxItems_perform (s : CacheStore V) (now : Time) (op : StoreOp V) :
    (s.perform now op).maxItems = s.maxItems := by
  cases op with
  | put key value ttlSeconds => exact maxItems_put s now key value ttlSeconds
  | get key => exact maxItems_get s now key
  | delete key => rfl
  | clear => rfl
  | items => rfl
  | snapshot => rfl
  | cleanup => rfl

theorem maxItems_run (s : CacheStore V) (ops : List (Time × StoreOp V)) :
    (s.run ops).maxItems = s.maxItems := by
  induction ops using List.reverseRecOn with
  | nil => rfl
  | append_singleton ops op ih => rw [run_concat, maxItems_perform, ih]

/-- What a read answers. -/
theorem fst_get_eq_some_iff {s : CacheStore V} {now : Time} {key : String} {v : V} :
    (s.get now key).1 = some v ↔ ∃ entry, s.entries.get? key = some entry ∧
      entry.isExpired now = false ∧ entry.value = some v := by
  rw [get]
  cases s.entries.get? key with
  | none => simp
  | some entry =>
    dsimp only
    split_ifs with hexpired
    · simp [hexpired]
    · simp [hexpired]

end CacheStore

end DistributedCache
