import DistributedCache.Library.OrderedDict
import Mathlib.Data.Finset.Card
import Mathlib.Data.List.DropRight

/-!
# Recency lists with a capacity

A recency list has its least recently used entry first. An operation drops some entries, or adds
one at the end and then keeps the last ones up to a capacity. Two facts follow from the order
alone: run next to each other, the list with the smaller capacity stays inside the one with the
larger capacity; and an entry falls out of the front only when as many others as the capacity
are behind it.

## Main definitions

* `Library.Inside` : a list of a smaller capacity inside one of a larger capacity.
* `OrderedDict.Older` : one key is less recent than another.

## Main results

* `Library.Inside.filter`, `Library.Inside.concat`, `Library.Inside.rtake` : the operations keep
  the smaller list inside the larger one.
* `OrderedDict.le_card_of_older` : how many keys are behind one that falls out.
-/

namespace Library

variable {α : Type*}

/-- `l` has capacity `n` and `l'` has capacity `m`: `l` is part of `l'`, in the same order, and
`l'` has at most `m - n` entries more. -/
structure Inside (n m : ℕ) (l l' : List α) : Prop where
  sublist : l.Sublist l'
  gap : l'.length + n ≤ l.length + m

namespace Inside

variable {n m : ℕ} {l l' : List α}

theorem nil (h : n ≤ m) : Inside n m ([] : List α) [] := ⟨.slnil, by simpa using h⟩

theorem le (h : Inside n m l l') : n ≤ m := by
  have hgap := h.gap
  have hlength := h.sublist.length_le
  omega

/-- What is dropped from the smaller list is dropped from the larger one. -/
theorem filter (h : Inside n m l l') (p : α → Bool) : Inside n m (l.filter p) (l'.filter p) := by
  refine ⟨h.sublist.filter p, ?_⟩
  have hl := List.length_eq_length_filter_add (l := l) p
  have hl' := List.length_eq_length_filter_add (l := l') p
  have hdropped := (h.sublist.filter fun a => !p a).length_le
  have hgap := h.gap
  omega

/-- The larger list may drop what the smaller one does not have. -/
theorem filter_right (h : Inside n m l l') {p : α → Bool} (hp : ∀ a ∈ l, p a = true) :
    Inside n m l (l'.filter p) := by
  have hfilter := h.filter p
  rwa [List.filter_eq_self.mpr hp] at hfilter

theorem concat (h : Inside n m l l') (a : α) : Inside n m (l ++ [a]) (l' ++ [a]) := by
  refine ⟨h.sublist.append (List.Sublist.refl _), ?_⟩
  have hgap := h.gap
  rw [List.length_append, List.length_append, List.length_singleton]
  omega

/-- The larger list may move an entry to the end that the smaller one does not have. -/
theorem moved_right (h : Inside n m l l') {p : α → Bool} (hp : ∀ a ∈ l, p a = true)
    (hone : (l'.filter p).length + 1 = l'.length) (a : α) :
    Inside n m l (l'.filter p ++ [a]) := by
  refine ⟨(h.filter_right hp).sublist.trans (List.sublist_append_left _ _), ?_⟩
  rw [List.length_append, List.length_singleton, hone]
  exact h.gap

/-- When the larger list has more than its capacity, the smaller one has as much more. -/
theorem rtake (h : Inside n m l l') : Inside n m (l.rtake n) (l'.rtake m) := by
  have hgap := h.gap
  refine ⟨?_, ?_⟩
  · rw [List.rtake, List.rtake]
    exact (h.sublist.drop _).trans (List.drop_sublist_drop_left l' (by omega))
  · have hlength := h.sublist.length_le
    rw [List.rtake, List.rtake, List.length_drop, List.length_drop]
    omega

end Inside

/-! ### The order of two keys -/

theorem pair_sublist_concat {a b x : α} {l : List α} (h : [a, b].Sublist (l ++ [x])) :
    b = x ∧ a ∈ l ∨ [a, b].Sublist l := by
  obtain ⟨l₁, l₂, heq, h₁, h₂⟩ := List.sublist_append_iff.mp h
  rcases List.cons_eq_append_iff.mp heq with ⟨rfl, rfl⟩ | ⟨l₃, rfl, htail⟩
  · exact absurd h₂.length_le (by simp)
  · rcases List.cons_eq_append_iff.mp htail with ⟨rfl, rfl⟩ | ⟨l₄, rfl, -⟩
    · refine Or.inl ⟨?_, h₁.subset List.mem_cons_self⟩
      simpa using h₂.subset List.mem_cons_self
    · have hpair : [a, b].Sublist (a :: b :: l₄) := by simp
      exact Or.inr (hpair.trans h₁)

namespace OrderedDict

variable {κ β : Type*}

/-- The key `a` is less recent than the key `b`. -/
def Older (d : OrderedDict κ β) (a b : κ) : Prop := [a, b].Sublist d.keys

variable {d d' : OrderedDict κ β} {a b k : κ}

theorem Older.mem_left (h : d.Older a b) : a ∈ d := h.subset List.mem_cons_self

theorem Older.mono (h : d.Older a b) (hsub : d.keys.Sublist d'.keys) : d'.Older a b :=
  h.trans hsub

theorem keys_filter_sublist (p : κ × β → Bool) (d : OrderedDict κ β) :
    (d.filter p).keys.Sublist d.keys :=
  List.filter_sublist.map Prod.fst

/-- When a dictionary keeps its last `n` entries only, a key that falls out had as many others
behind it. -/
theorem le_card_of_older {n : ℕ} (hlast : d'.toList = d.toList.rtake n) (hk : k ∈ d) (hk' : k ∉ d')
    {s : Finset κ} (hs : ∀ b, d.Older k b → b ∈ s) : n ≤ s.card := by
  classical
  set m := d.toList.length - n with hm
  have hkeys : d.keys = d.keys.take m ++ d'.keys := by
    rw [keys, keys, hlast, List.rtake, ← hm, List.map_drop, List.take_append_drop]
  have hfront : k ∈ d.keys.take m := by
    rw [mem_def, hkeys, List.mem_append] at hk
    exact hk.resolve_right hk'
  have hnodup : d'.keys.Nodup := d'.keys_nodup
  have hlength : d'.keys.length = n := by
    have hpos := List.length_pos_of_mem hfront
    rw [List.length_take] at hpos
    rw [keys, List.length_map, hlast, List.rtake, List.length_drop]
    omega
  have hsub : d'.keys.toFinset ⊆ s := by
    intro b hb
    refine hs b ?_
    rw [Older, hkeys]
    exact (List.singleton_sublist.mpr hfront).append
      (List.singleton_sublist.mpr (List.mem_toFinset.mp hb))
  calc n = d'.keys.toFinset.card := by rw [List.toFinset_card_of_nodup hnodup, hlength]
    _ ≤ s.card := Finset.card_le_card hsub

variable [DecidableEq κ]

/-- A key that is assigned anew becomes the most recent one. -/
theorem Older.of_pop_set {v : β} (h : ((d.pop k).set k v).Older a b) :
    a ≠ k ∧ (b = k ∨ d.Older a b) := by
  have hkeys : ((d.pop k).set k v).keys = (d.pop k).keys ++ [k] := by
    rw [keys, toList_pop_set, List.map_append, List.map_singleton, keys]
  rw [Older, hkeys] at h
  rcases pair_sublist_concat h with ⟨rfl, ha⟩ | h
  · exact ⟨(mem_pop.mp ha).1, Or.inl rfl⟩
  · exact ⟨(mem_pop.mp (Older.mem_left h)).1,
      Or.inr (Older.mono h (keys_filter_sublist _ d))⟩

end OrderedDict

end Library
