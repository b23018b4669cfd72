import Mathlib.Data.Prod.Lex
import Mathlib.Order.Bounds.Basic

/-!
# Going around a circle of positions

The positions of a circle are ordered from a starting point on: first those above it, then, from
the bottom again, those up to it. A list of positions in this order is searched from its front,
so a search finds the position that is least in this order among those looked for.

## Main definitions

* `Library.clockwiseKey` : the place of a position on the way around from a starting point.

## Main results

* `Library.isLeast_clockwiseKey_iff` : the first position of all.
* `Library.find?_eq_some_iff_of_pairwise` : what a search through a list in order finds.
-/

namespace Library

variable {α : Type*} [LinearOrder α]

/-- The place of `a` on the way around from `start`: the positions above `start` come first, and
then those up to it, both in ascending order. -/
def clockwiseKey (start a : α) : Bool ×ₗ α := toLex (decide (a ≤ start), a)

variable {start a b : α}

theorem clockwiseKey_lt_of_lt (ha : start < a) (hb : b ≤ start) :
    clockwiseKey start a < clockwiseKey start b := by
  refine Prod.Lex.toLex_lt_toLex.mpr (Or.inl ?_)
  simp [hb, not_le.mpr ha]

theorem clockwiseKey_lt_iff_of_iff (h : start < a ↔ start < b) :
    clockwiseKey start a < clockwiseKey start b ↔ a < b := by
  have hside : decide (a ≤ start) = decide (b ≤ start) :=
    decide_eq_decide.mpr (by rw [← not_lt, ← not_lt, h])
  rw [clockwiseKey, clockwiseKey, Prod.Lex.toLex_lt_toLex]
  simp [hside]

theorem clockwiseKey_injective (start : α) : Function.Injective (clockwiseKey start) :=
  fun _ _ h => (Prod.mk.inj (toLex.injective h)).2

/-- The first of some positions is the least one above the starting point, or the least one of
all when there is none above it. -/
theorem isLeast_clockwiseKey_iff {s : Set α} :
    (a ∈ s ∧ ∀ b ∈ s, clockwiseKey start a ≤ clockwiseKey start b) ↔
      IsLeast {b | b ∈ s ∧ start < b} a ∨ (∀ b ∈ s, b ≤ start) ∧ IsLeast s a := by
  constructor
  · rintro ⟨ha, hfirst⟩
    by_cases hstart : start < a
    · refine Or.inl ⟨⟨ha, hstart⟩, fun b hb => ?_⟩
      have hle := hfirst b hb.1
      rwa [← not_lt, clockwiseKey_lt_iff_of_iff (iff_of_true hb.2 hstart), not_lt] at hle
    · have hbelow : ∀ b ∈ s, b ≤ start := fun b hb =>
        not_lt.mp fun hb' => (clockwiseKey_lt_of_lt hb' (not_lt.mp hstart)).not_ge (hfirst b hb)
      refine Or.inr ⟨hbelow, ha, fun b hb => ?_⟩
      have hle := hfirst b hb
      rwa [← not_lt, clockwiseKey_lt_iff_of_iff (iff_of_false (hbelow b hb).not_gt hstart),
        not_lt] at hle
  · rintro (⟨⟨ha, hstart⟩, hleast⟩ | ⟨hbelow, ha, hleast⟩)
    · refine ⟨ha, fun b hb => ?_⟩
      by_cases hb' : start < b
      · rw [← not_lt, clockwiseKey_lt_iff_of_iff (iff_of_true hb' hstart), not_lt]
        exact hleast ⟨hb, hb'⟩
      · exact (clockwiseKey_lt_of_lt hstart (not_lt.mp hb')).le
    · refine ⟨ha, fun b hb => ?_⟩
      rw [← not_lt, clockwiseKey_lt_iff_of_iff
        (iff_of_false (hbelow b hb).not_gt (hbelow a ha).not_gt), not_lt]
      exact hleast hb

/-- A search from the front of a list in ascending order finds the least entry that it looks
for. -/
theorem find?_eq_some_iff_of_pairwise {ι β : Type*} [LinearOrder β] {key : ι → β} {l : List ι}
    (h : l.Pairwise fun x y => key x < key y) {p : ι → Bool} {x : ι} :
    l.find? p = some x ↔ x ∈ l ∧ p x = true ∧ ∀ y ∈ l, p y = true → key x ≤ key y := by
  induction l with
  | nil => simp
  | cons z l ih =>
    obtain ⟨hz, hl⟩ := List.pairwise_cons.mp h
    by_cases hp : p z = true
    · rw [List.find?_cons_of_pos hp, Option.some.injEq]
      constructor
      · rintro rfl
        refine ⟨List.mem_cons_self, hp, fun y hy _ => ?_⟩
        rcases List.mem_cons.mp hy with rfl | hy
        · exact le_rfl
        · exact (hz y hy).le
      · rintro ⟨hx, -, hfirst⟩
        rcases List.mem_cons.mp hx with rfl | hx
        · rfl
        · exact absurd (hz x hx) (hfirst z List.mem_cons_self hp).not_gt
    · rw [List.find?_cons_of_neg hp, ih hl]
      constructor
      · rintro ⟨hx, hpx, hfirst⟩
        refine ⟨List.mem_cons_of_mem z hx, hpx, fun y hy hpy => ?_⟩
        rcases List.mem_cons.mp hy with rfl | hy
        · exact absurd hpy hp
        · exact hfirst y hy hpy
      · rintro ⟨hx, hpx, hfirst⟩
        rcases List.mem_cons.mp hx with rfl | hx
        · exact absurd hpx hp
        · exact ⟨hx, hpx, fun y hy => hfirst y (List.mem_cons_of_mem z hy)⟩

end Library
