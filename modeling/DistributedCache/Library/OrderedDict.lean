import Mathlib.Data.List.Nodup
import Mathlib.Data.List.Sublists

/-!
# Dictionaries in insertion order

A dictionary keeps its entries in the order in which their keys were first inserted: assigning
to a key that is present overwrites the entry in place, assigning to a new key appends it.
Entries can be popped by key, moved to the end, or taken from the front. The order is what a
least-recently-used list and a "first match wins" scan read.

## Main definitions

* `Library.OrderedDict` : entries in insertion order, no key twice.
* `OrderedDict.get?`, `OrderedDict.set`, `OrderedDict.pop`, `OrderedDict.moveToEnd`,
  `OrderedDict.popFirst`, `OrderedDict.filter`.

## Main results

* `OrderedDict.get?_eq_some_iff` : lookups are the entries.
* `OrderedDict.get?_set`, `OrderedDict.get?_pop`, `OrderedDict.get?_moveToEnd` : the operations
  on lookups.
-/

namespace Library

/-- A dictionary in insertion order. -/
structure OrderedDict (κ : Type*) (α : Type*) where
  /-- The entries, oldest first. -/
  toList : List (κ × α)
  nodup_keys : (toList.map Prod.fst).Nodup
  deriving DecidableEq

namespace OrderedDict

variable {κ α β : Type*}

theorem ext_toList {d d' : OrderedDict κ α} (h : d.toList = d'.toList) : d = d' := by
  cases d
  cases d'
  simpa only [mk.injEq] using h

/-- The dictionary without entries. -/
def empty : OrderedDict κ α := ⟨[], List.nodup_nil⟩

/-- The keys, oldest first. -/
def keys (d : OrderedDict κ α) : List κ := d.toList.map Prod.fst

/-- The values, in the order of their keys. -/
def values (d : OrderedDict κ α) : List α := d.toList.map Prod.snd

/-- The number of entries. -/
def size (d : OrderedDict κ α) : ℕ := d.toList.length

instance : Membership κ (OrderedDict κ α) := ⟨fun d k => k ∈ d.keys⟩

theorem mem_def {d : OrderedDict κ α} {k : κ} : k ∈ d ↔ k ∈ d.keys := Iff.rfl

/-- The dictionary of some of the entries, in their order. -/
def ofSublist (d : OrderedDict κ α) (l : List (κ × α)) (h : l.Sublist d.toList) :
    OrderedDict κ α :=
  ⟨l, (h.map Prod.fst).nodup d.nodup_keys⟩

/-- The entries satisfying `p`, in their order. -/
def filter (p : κ × α → Bool) (d : OrderedDict κ α) : OrderedDict κ α :=
  d.ofSublist (d.toList.filter p) List.filter_sublist

/-- The dictionary without its oldest entry. -/
def popFirst (d : OrderedDict κ α) : OrderedDict κ α :=
  d.ofSublist d.toList.tail (List.tail_sublist _)

@[simp] theorem toList_filter (p : κ × α → Bool) (d : OrderedDict κ α) :
    (d.filter p).toList = d.toList.filter p := rfl

@[simp] theorem toList_empty : (empty : OrderedDict κ α).toList = [] := rfl

@[simp] theorem keys_empty : (empty : OrderedDict κ α).keys = [] := rfl

@[simp] theorem not_mem_empty (k : κ) : k ∉ (empty : OrderedDict κ α) := List.not_mem_nil

theorem length_keys (d : OrderedDict κ α) : d.keys.length = d.size := List.length_map _

theorem keys_nodup (d : OrderedDict κ α) : d.keys.Nodup := d.nodup_keys

theorem mem_keys_iff {d : OrderedDict κ α} {k : κ} : k ∈ d.keys ↔ ∃ v, (k, v) ∈ d.toList := by
  simp [keys]

variable [DecidableEq κ]

instance (d : OrderedDict κ α) (k : κ) : Decidable (k ∈ d) :=
  inferInstanceAs (Decidable (k ∈ d.keys))

/-! ### Lookups -/

/-- The value of a key. -/
def get? (d : OrderedDict κ α) (k : κ) : Option α := d.toList.lookup k

private theorem lookup_eq_some_iff_mem : {l : List (κ × α)} → (l.map Prod.fst).Nodup →
    {k : κ} → {v : α} → (l.lookup k = some v ↔ (k, v) ∈ l)
  | [], _, _, _ => by simp
  | (a, b) :: l, h, k, v => by
      rw [List.map_cons, List.nodup_cons] at h
      rw [List.lookup_cons]
      by_cases hk : k = a
      · subst hk
        have hv : (k, v) ∉ l := fun hm => h.1 (List.mem_map.mpr ⟨_, hm, rfl⟩)
        simp [hv, eq_comm]
      · have hb : (k == a) = false := by simpa using hk
        simp only [hb, lookup_eq_some_iff_mem h.2, List.mem_cons, Prod.mk.injEq, hk, false_and,
          false_or]

/-- Looking a key up finds its entry. -/
theorem get?_eq_some_iff {d : OrderedDict κ α} {k : κ} {v : α} :
    d.get? k = some v ↔ (k, v) ∈ d.toList :=
  lookup_eq_some_iff_mem d.nodup_keys

theorem get?_eq_none_iff {d : OrderedDict κ α} {k : κ} : d.get? k = none ↔ k ∉ d := by
  rw [Option.eq_none_iff_forall_ne_some, mem_def, mem_keys_iff, not_exists]
  exact forall_congr' fun v => not_congr get?_eq_some_iff

theorem mem_iff_exists_get? {d : OrderedDict κ α} {k : κ} : k ∈ d ↔ ∃ v, d.get? k = some v := by
  simp only [mem_def, mem_keys_iff, get?_eq_some_iff]

theorem isSome_get?_iff {d : OrderedDict κ α} {k : κ} : (d.get? k).isSome ↔ k ∈ d := by
  rw [mem_iff_exists_get?, Option.isSome_iff_exists]

@[simp] theorem get?_empty (k : κ) : (empty : OrderedDict κ α).get? k = none := rfl

theorem get?_filter {d : OrderedDict κ α} {p : κ × α → Bool} {k : κ} :
    (d.filter p).get? k = (d.get? k).filter fun v => p (k, v) := by
  ext v
  simp only [Option.filter_eq_some_iff, get?_eq_some_iff, toList_filter, List.mem_filter]

theorem mem_values_iff {d : OrderedDict κ α} {v : α} :
    v ∈ d.values ↔ ∃ k, d.get? k = some v := by
  simp [values, get?_eq_some_iff]

/-! ### Assignment -/

/-- `d[k] = v`: in place when `k` is present, at the end otherwise. -/
def set (d : OrderedDict κ α) (k : κ) (v : α) : OrderedDict κ α where
  toList := if k ∈ d then d.toList.map fun p => if p.1 = k then (k, v) else p
    else d.toList ++ [(k, v)]
  nodup_keys := by
    split_ifs with h
    · have hk : (d.toList.map fun p => if p.1 = k then (k, v) else p).map Prod.fst = d.keys := by
        rw [List.map_map, keys]
        refine List.map_congr_left fun p _ => ?_
        by_cases hp : p.1 = k <;> simp [hp]
      rw [hk]
      exact d.nodup_keys
    · rw [List.map_append, List.map_singleton, List.nodup_append]
      refine ⟨d.nodup_keys, List.nodup_singleton _, fun a ha b hb => ?_⟩
      rintro rfl
      have hak : a = k := List.mem_singleton.mp hb
      exact h (hak ▸ ha)

theorem mem_toList_set {d : OrderedDict κ α} {k : κ} {v : α} {p : κ × α} :
    p ∈ (d.set k v).toList ↔ p = (k, v) ∨ p.1 ≠ k ∧ p ∈ d.toList := by
  rw [set]
  dsimp only
  split_ifs with h
  · obtain ⟨w, hw⟩ := mem_keys_iff.mp h
    constructor
    · intro hp
      obtain ⟨q, hq, rfl⟩ := List.mem_map.mp hp
      by_cases hqk : q.1 = k
      · exact Or.inl (by rw [if_pos hqk])
      · exact Or.inr (by rw [if_neg hqk]; exact ⟨hqk, hq⟩)
    · rintro (rfl | ⟨hpk, hp⟩)
      · exact List.mem_map.mpr ⟨_, hw, by simp⟩
      · exact List.mem_map.mpr ⟨p, hp, by simp [hpk]⟩
  · rw [List.mem_append, List.mem_singleton, or_comm]
    refine or_congr_right ⟨fun hp => ⟨?_, hp⟩, And.right⟩
    rintro rfl
    exact h (mem_keys_iff.mpr ⟨p.2, hp⟩)

theorem get?_set (d : OrderedDict κ α) (k : κ) (v : α) (k' : κ) :
    (d.set k v).get? k' = if k' = k then some v else d.get? k' := by
  ext w
  rw [get?_eq_some_iff, mem_toList_set]
  split_ifs with h
  · subst h
    simp [eq_comm]
  · simp [h, get?_eq_some_iff]

@[simp] theorem get?_set_self (d : OrderedDict κ α) (k : κ) (v : α) :
    (d.set k v).get? k = some v := by
  rw [get?_set, if_pos rfl]

theorem get?_set_of_ne (d : OrderedDict κ α) {k k' : κ} (v : α) (h : k' ≠ k) :
    (d.set k v).get? k' = d.get? k' := by
  rw [get?_set, if_neg h]

theorem mem_set {d : OrderedDict κ α} {k : κ} {v : α} {k' : κ} :
    k' ∈ d.set k v ↔ k' = k ∨ k' ∈ d := by
  simp only [mem_iff_exists_get?, get?_set]
  split_ifs with h <;> simp [h]

/-! ### Removal and recency -/

/-- `d.pop(k, None)`. -/
def pop (d : OrderedDict κ α) (k : κ) : OrderedDict κ α := d.filter fun p => p.1 ≠ k

theorem get?_pop (d : OrderedDict κ α) (k k' : κ) :
    (d.pop k).get? k' = if k' = k then none else d.get? k' := by
  ext w
  rw [pop, get?_filter]
  split_ifs with h <;> simp [h]

theorem get?_pop_of_ne (d : OrderedDict κ α) {k k' : κ} (h : k' ≠ k) :
    (d.pop k).get? k' = d.get? k' := by
  rw [get?_pop, if_neg h]

theorem mem_pop {d : OrderedDict κ α} {k k' : κ} : k' ∈ d.pop k ↔ k' ≠ k ∧ k' ∈ d := by
  simp only [mem_iff_exists_get?, get?_pop]
  split_ifs with h <;> simp [h]

theorem pop_of_not_mem {d : OrderedDict κ α} {k : κ} (h : k ∉ d) : d.pop k = d := by
  refine ext_toList (List.filter_eq_self.mpr fun p hp => ?_)
  have hpk : p.1 ≠ k := by
    rintro rfl
    exact h (mem_keys_iff.mpr ⟨p.2, hp⟩)
  simpa using hpk

/-- The entry of `k` moved to the end; nothing when `k` is absent. -/
def moveToEnd (d : OrderedDict κ α) (k : κ) : OrderedDict κ α :=
  match d.get? k with
  | none => d
  | some v => (d.pop k).set k v

@[simp] theorem get?_moveToEnd (d : OrderedDict κ α) (k k' : κ) :
    (d.moveToEnd k).get? k' = d.get? k' := by
  unfold moveToEnd
  split
  · rfl
  · rename_i v hv
    rw [get?_set, get?_pop]
    split_ifs with h
    · rw [h, hv]
    · rfl

/-- A popped key that is assigned again goes to the end. -/
theorem toList_pop_set (d : OrderedDict κ α) (k : κ) (v : α) :
    ((d.pop k).set k v).toList = (d.pop k).toList ++ [(k, v)] := by
  have h : k ∉ d.pop k := fun hk => (mem_pop.mp hk).1 rfl
  rw [set]
  simp only [h, if_false]

theorem toList_moveToEnd {d : OrderedDict κ α} {k : κ} {v : α} (h : d.get? k = some v) :
    (d.moveToEnd k).toList = (d.pop k).toList ++ [(k, v)] := by
  rw [moveToEnd, h]
  exact toList_pop_set d k v

/-- A new key goes to the end. -/
theorem keys_set_of_not_mem {d : OrderedDict κ α} {k : κ} (h : k ∉ d) (v : α) :
    (d.set k v).keys = d.keys ++ [k] := by
  have hset := toList_pop_set d k v
  rw [pop_of_not_mem h] at hset
  rw [keys, hset, List.map_append]
  rfl

/-! ### Sizes -/

theorem size_pop_add_one {d : OrderedDict κ α} {k : κ} (h : k ∈ d) :
    (d.pop k).size + 1 = d.size := by
  have hp : (d.pop k).keys = d.keys.erase k := by
    rw [d.keys_nodup.erase_eq_filter, keys, pop, toList_filter, keys, List.filter_map]
    congr 1
    refine List.filter_congr fun p _ => ?_
    by_cases hp : p.1 = k <;> simp [hp]
  rw [← length_keys, ← length_keys, hp, List.length_erase_of_mem h,
    Nat.sub_add_cancel (List.length_pos_of_mem h)]

end OrderedDict

end Library
