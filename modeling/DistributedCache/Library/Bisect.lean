import Mathlib.Data.List.Sort

/-!
# Binary search for an insertion point

`bisectRight a x` is the index after the entries of the sorted list `a` that are at most `x`,
found by halving an interval `[lo, hi)`. The list splits there into the entries at most `x` and
the entries above `x`.

## Main definitions

* `Library.bisectRight` : the insertion point to the right of `x`.

## Main results

* `Library.take_bisectRight`, `Library.drop_bisectRight` : the two parts of the list.
-/

namespace Library

variable {α : Type*} [LinearOrder α]

/-- The search in `a[lo:hi]`; each round halves the interval, so `hi - lo` rounds suffice. -/
def bisectRightLoop (a : List α) (x : α) : ℕ → ℕ → ℕ → ℕ
  | 0, lo, _ => lo
  | rounds + 1, lo, hi =>
    if lo < hi then
      match a[(lo + hi) / 2]? with
      | none => lo
      | some y =>
        if x < y then bisectRightLoop a x rounds lo ((lo + hi) / 2)
        else bisectRightLoop a x rounds ((lo + hi) / 2 + 1) hi
    else lo

/-- The insertion point of `x` in the sorted list `a`, after the entries equal to `x`. -/
def bisectRight (a : List α) (x : α) : ℕ := bisectRightLoop a x a.length 0 a.length

/-- `r` separates the entries at most `x` from the entries above `x`. -/
def IsInsertionPoint (a : List α) (x : α) (r : ℕ) : Prop :=
  r ≤ a.length ∧ (∀ y ∈ a.take r, y ≤ x) ∧ ∀ y ∈ a.drop r, x < y

private theorem le_of_mem_take {a : List α} (ha : a.Pairwise (· ≤ ·)) {m : ℕ} (hm : m < a.length)
    {y : α} (hy : y ∈ a.take (m + 1)) : y ≤ a[m] := by
  obtain ⟨i, hi, rfl⟩ := List.mem_take_iff_getElem.mp hy
  rcases Nat.lt_or_eq_of_le (Nat.lt_succ_iff.mp (lt_of_lt_of_le hi (min_le_left _ _))) with h | h
  · exact List.pairwise_iff_getElem.mp ha i m _ hm h
  · simp [h]

private theorem le_of_mem_drop {a : List α} (ha : a.Pairwise (· ≤ ·)) {m : ℕ} (hm : m < a.length)
    {y : α} (hy : y ∈ a.drop m) : a[m] ≤ y := by
  obtain ⟨i, hi, rfl⟩ := List.mem_drop_iff_getElem.mp hy
  rcases Nat.eq_zero_or_pos i with h | h
  · simp [h]
  · exact List.pairwise_iff_getElem.mp ha m (m + i) hm _ (by omega)

/-- The loop keeps entries at most `x` below `lo` and entries above `x` from `hi` on. -/
theorem bisectRightLoop_spec {a : List α} (ha : a.Pairwise (· ≤ ·)) (x : α) (rounds lo hi : ℕ)
    (hrounds : hi - lo ≤ rounds) (hle : lo ≤ hi) (hhi : hi ≤ a.length)
    (hlow : ∀ y ∈ a.take lo, y ≤ x) (hhigh : ∀ y ∈ a.drop hi, x < y) :
    IsInsertionPoint a x (bisectRightLoop a x rounds lo hi) := by
  induction rounds generalizing lo hi with
  | zero =>
    have heq : lo = hi := by omega
    subst heq
    exact ⟨hhi, hlow, hhigh⟩
  | succ rounds ih =>
    rw [bisectRightLoop]
    by_cases hlt : lo < hi
    · have hmid : (lo + hi) / 2 < a.length := by omega
      simp only [hlt, if_true, List.getElem?_eq_getElem hmid]
      by_cases hx : x < a[(lo + hi) / 2]
      · rw [if_pos hx]
        refine ih lo _ (by omega) (by omega) (by omega) hlow fun y hy => ?_
        exact lt_of_lt_of_le hx (le_of_mem_drop ha hmid hy)
      · rw [if_neg hx]
        refine ih _ hi (by omega) (by omega) hhi (fun y hy => ?_) hhigh
        exact (le_of_mem_take ha hmid hy).trans (not_lt.mp hx)
    · have heq : lo = hi := by omega
      subst heq
      rw [if_neg hlt]
      exact ⟨hhi, hlow, hhigh⟩

theorem isInsertionPoint_bisectRight {a : List α} (ha : a.Pairwise (· ≤ ·)) (x : α) :
    IsInsertionPoint a x (bisectRight a x) :=
  bisectRightLoop_spec ha x _ _ _ (by omega) (Nat.zero_le _) le_rfl (by simp) (by simp)

theorem bisectRight_le_length {a : List α} (ha : a.Pairwise (· ≤ ·)) (x : α) :
    bisectRight a x ≤ a.length :=
  (isInsertionPoint_bisectRight ha x).1

/-- Before the insertion point stand the entries at most `x`. -/
theorem take_bisectRight {a : List α} (ha : a.Pairwise (· ≤ ·)) (x : α) :
    a.take (bisectRight a x) = a.filter (· ≤ x) := by
  obtain ⟨-, hlow, hhigh⟩ := isInsertionPoint_bisectRight ha x
  conv_rhs => rw [← List.take_append_drop (bisectRight a x) a, List.filter_append]
  rw [List.filter_eq_self.mpr (by simpa using hlow),
    List.filter_eq_nil_iff.mpr (by simpa using hhigh), List.append_nil]

/-- From the insertion point on stand the entries above `x`. -/
theorem drop_bisectRight {a : List α} (ha : a.Pairwise (· ≤ ·)) (x : α) :
    a.drop (bisectRight a x) = a.filter (x < ·) := by
  obtain ⟨-, hlow, hhigh⟩ := isInsertionPoint_bisectRight ha x
  conv_rhs => rw [← List.take_append_drop (bisectRight a x) a, List.filter_append]
  rw [List.filter_eq_nil_iff.mpr (by simpa using hlow),
    List.filter_eq_self.mpr (by simpa using hhigh), List.nil_append]

end Library
