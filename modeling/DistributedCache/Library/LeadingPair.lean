import Mathlib.Data.List.Basic

/-!
# The first two distinct labels of a list

Every entry of a list carries a label. The *leading pair* of the list is its first entry and
the first entry with another label. Filtering one label out of the list changes the leading
pair in a controlled way: an entry with that label disappears from the pair, the other entry
of the pair stays, and a pair without that label stays as it is.

## Main definitions

* `Library.leadingPair` : the first entry and the first entry with another label.

## Main results

* `Library.leadingPair_eq_of_filter_ne` : the possible leading pairs of a list whose leading pair
  without one label is known.
-/

namespace Library

variable {α κ : Type*} [DecidableEq κ] (f : α → κ)

/-- The first entry of a list and the first entry whose label differs from its label. -/
def leadingPair (l : List α) : Option (α × Option α) :=
  l.head?.map fun a => (a, l.find? fun b => f b ≠ f a)

@[simp] theorem leadingPair_nil : leadingPair f ([] : List α) = none := rfl

theorem leadingPair_cons (a : α) (l : List α) :
    leadingPair f (a :: l) = some (a, l.find? fun b => f b ≠ f a) := by
  simp [leadingPair]

theorem leadingPair_eq_none_iff {l : List α} : leadingPair f l = none ↔ l = [] := by
  simp [leadingPair]

theorem mem_of_leadingPair {l : List α} {a : α} {b : Option α}
    (h : leadingPair f l = some (a, b)) : a ∈ l ∧ ∀ c ∈ b, c ∈ l ∧ f c ≠ f a := by
  cases l with
  | nil => simp at h
  | cons x l =>
    rw [leadingPair_cons] at h
    obtain ⟨rfl, rfl⟩ := Prod.mk.inj (Option.some.inj h)
    refine ⟨List.mem_cons_self, fun c hc => ⟨?_, ?_⟩⟩
    · exact List.mem_cons_of_mem _ (List.mem_of_find?_eq_some hc)
    · simpa using List.find?_some hc

/-- Without a second label every entry carries the label of the first. -/
theorem eq_of_leadingPair_none {l : List α} {a : α} (h : leadingPair f l = some (a, none))
    {c : α} (hc : c ∈ l) : f c = f a := by
  cases l with
  | nil => simp at h
  | cons x l =>
    rw [leadingPair_cons] at h
    obtain ⟨rfl, hnone⟩ := Prod.mk.inj (Option.some.inj h)
    rcases List.mem_cons.mp hc with rfl | hc
    · rfl
    · simpa using List.find?_eq_none.mp hnone c hc

private theorem find?_filter_of_find? {p q : α → Bool} {l : List α} {a : α}
    (h : l.find? q = some a) (ha : p a = true) : (l.filter p).find? q = some a := by
  induction l with
  | nil => simp at h
  | cons x l ih =>
    by_cases hx : q x = true
    · rw [List.find?_cons_of_pos hx] at h
      obtain rfl := Option.some.inj h
      rw [List.filter_cons_of_pos ha, List.find?_cons_of_pos hx]
    · rw [List.find?_cons_of_neg hx] at h
      by_cases hp : p x = true
      · rw [List.filter_cons_of_pos hp, List.find?_cons_of_neg hx, ih h]
      · rw [List.filter_cons_of_neg hp, ih h]

/-- **Filtering a label out of the leading pair.** If `(a, b)` leads the entries of `l` without
the label `n`, then `l` is led by `(a, b)` itself, or by an entry labelled `n` together with
`a`, in one of the two orders. -/
theorem leadingPair_eq_of_filter_ne {n : κ} {l : List α} {a : α} {b : Option α}
    (h : leadingPair f (l.filter fun c => f c ≠ n) = some (a, b)) :
    leadingPair f l = some (a, b) ∨
      ∃ x, f x = n ∧ (leadingPair f l = some (x, some a) ∨ leadingPair f l = some (a, some x)) := by
  cases l with
  | nil => simp at h
  | cons x l =>
    by_cases hx : f x = n
    · -- The label leads: the first other label is the old leader.
      right
      refine ⟨x, hx, Or.inl ?_⟩
      rw [List.filter_cons_of_neg (by simp [hx])] at h
      have hhead : (l.filter fun c => f c ≠ n).head? = some a := by
        cases hl : l.filter fun c => f c ≠ n with
        | nil => rw [hl] at h; simp at h
        | cons y l' =>
          rw [hl, leadingPair_cons] at h
          rw [List.head?_cons, (Prod.mk.inj (Option.some.inj h)).1]
      rw [leadingPair_cons, hx, ← List.head?_filter, hhead]
    · rw [List.filter_cons_of_pos (by simpa using hx), leadingPair_cons] at h
      obtain ⟨rfl, hb⟩ := Prod.mk.inj (Option.some.inj h)
      rw [leadingPair_cons]
      cases hr : l.find? fun c => f c ≠ f x with
      | none =>
        left
        have hnone : (l.filter fun c => f c ≠ n).find? (fun c => f c ≠ f x) = none := by
          rw [List.find?_eq_none] at hr ⊢
          exact fun c hc => hr c (List.mem_of_mem_filter hc)
        rw [← hb, hnone]
      | some y =>
        by_cases hy : f y = n
        · exact Or.inr ⟨y, hy, Or.inr rfl⟩
        · left
          rw [← hb, find?_filter_of_find? hr (by simpa using hy)]

/-- When `n` leads, the entries without `n` are led by the second entry of the pair. -/
theorem head?_filter_ne_of_leadingPair {n : κ} {l : List α} {a : α} {b : Option α}
    (h : leadingPair f l = some (a, b)) (ha : f a = n) :
    (l.filter fun c => f c ≠ n).head? = b := by
  cases l with
  | nil => simp at h
  | cons x l =>
    rw [leadingPair_cons] at h
    obtain ⟨rfl, rfl⟩ := Prod.mk.inj (Option.some.inj h)
    rw [List.filter_cons_of_neg (by simp [ha]), List.head?_filter, ha]

/-- When another label leads, it still leads the entries without `n`. -/
theorem head?_filter_ne_of_leadingPair_ne {n : κ} {l : List α} {a : α} {b : Option α}
    (h : leadingPair f l = some (a, b)) (ha : f a ≠ n) :
    (l.filter fun c => f c ≠ n).head? = some a := by
  cases l with
  | nil => simp at h
  | cons x l =>
    rw [leadingPair_cons] at h
    obtain ⟨rfl, -⟩ := Prod.mk.inj (Option.some.inj h)
    rw [List.filter_cons_of_pos (by simpa using ha), List.head?_cons]

end Library
