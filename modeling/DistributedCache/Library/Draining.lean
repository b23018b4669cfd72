import Mathlib.Algebra.BigOperators.Group.List.Basic
import Mathlib.Algebra.GroupWithZero.Nat
import Mathlib.Order.OrderIsoNat

/-!
# Work that comes to an end

A system that goes on for ever does only finitely much work if every piece of work makes a measure
smaller and nothing else makes it larger. If it never rests for good while there is work to do,
there is at last nothing to do.

## Main definitions

* `statesAlong` : the states along finitely many events, with an idle event ever after.

## Main results

* `eventually_rests` : from some point on no work is done.
* `eventually_drained` : from some point on there is nothing to do.
* `works_of_bot` : a system that works until the measure is least never rests too early.
* `sum_map_set` : a sum of a list in which one entry is replaced.
-/

namespace Library

variable {σ α : Type*} [Preorder α] [WellFoundedLT α] {f : ℕ → σ} {works : ℕ → Prop}

theorem eventually_rests (μ : σ → α) (hle : ∀ n, μ (f (n + 1)) ≤ μ (f n))
    (hlt : ∀ n, works n → μ (f (n + 1)) < μ (f n)) : ∃ N, ∀ n ≥ N, ¬works n := by
  have hanti : Antitone fun n => μ (f n) := antitone_nat_of_succ_le hle
  obtain ⟨N, hN⟩ := WellFoundedGT.monotone_chain_condition' (α := αᵒᵈ)
    ⟨fun n => OrderDual.toDual (μ (f n)), hanti.dual_right⟩
  refine ⟨N, fun n hn hworks => hN (n + 1) (hn.trans (Nat.le_succ n)) ?_⟩
  exact (hlt n hworks).trans_le (hanti hn)

theorem eventually_drained (μ : σ → α) (hle : ∀ n, μ (f (n + 1)) ≤ μ (f n))
    (hlt : ∀ n, works n → μ (f (n + 1)) < μ (f n)) {Drained : σ → Prop}
    (hfair : ∀ n, ¬Drained (f n) → ∃ k ≥ n, works k) : ∃ N, ∀ n ≥ N, Drained (f n) := by
  obtain ⟨N, hN⟩ := eventually_rests μ hle hlt
  refine ⟨N, fun n hn => ?_⟩
  by_contra hnot
  obtain ⟨k, hk, hworks⟩ := hfair n hnot
  exact hN k (hn.trans hk) hworks

omit [WellFoundedLT α] in
/-- A system that works until the measure is least works again whenever it could get lower. -/
theorem works_of_bot [OrderBot α] (μ : σ → α) (hle : ∀ n, μ (f (n + 1)) ≤ μ (f n)) {N : ℕ}
    (hworks : ∀ n < N, works n) (hend : μ (f N) = ⊥) {n : ℕ} (h : ∃ s, μ s < μ (f n)) :
    ∃ k ≥ n, works k := by
  rcases lt_or_ge n N with hn | hn
  · exact ⟨n, le_rfl, hworks n hn⟩
  · obtain ⟨s, hs⟩ := h
    have hanti : Antitone fun n => μ (f n) := antitone_nat_of_succ_le hle
    have hlow : μ s < ⊥ := (hs.trans_le (hanti hn)).trans_eq hend
    exact absurd hlow not_lt_bot

section Along

variable {ε : Type*} (next : σ → ε → Option σ) (idle : ε)

/-- The states along a list of events, and idle events ever after. -/
def statesAlong (s : σ) : List ε → ℕ → σ
  | _, 0 => s
  | es, n + 1 => statesAlong ((next s (es.headD idle)).getD s) es.tail n

/-- All events of the list can be taken one after another. -/
def takes (s : σ) : List ε → Bool
  | [] => true
  | e :: es => (next s e).any fun s' => takes s' es

variable {next idle}

private theorem exists_next (hidle : ∀ s, (next s idle).isSome) {s : σ} {es : List ε}
    (h : takes next s es) : ∃ s', next s (es.headD idle) = some s' ∧ takes next s' es.tail := by
  cases es with
  | nil =>
    obtain ⟨s', hs'⟩ := Option.isSome_iff_exists.mp (hidle s)
    exact ⟨s', hs', rfl⟩
  | cons e es => exact (Option.any_eq_true _ _).mp h

private theorem statesAlong_succ {s s' : σ} {es : List ε} (h : next s (es.headD idle) = some s')
    (n : ℕ) : statesAlong next idle s es (n + 1) = statesAlong next idle s' es.tail n := by
  rw [statesAlong, h, Option.getD_some]

theorem next_statesAlong (hidle : ∀ s, (next s idle).isSome) {s : σ} {es : List ε}
    (h : takes next s es) (n : ℕ) : next (statesAlong next idle s es n) (es.getD n idle) =
      some (statesAlong next idle s es (n + 1)) := by
  induction n generalizing s es with
  | zero =>
    obtain ⟨s', hs', -⟩ := exists_next hidle h
    have hhead : es.getD 0 idle = es.headD idle := by cases es <;> rfl
    rw [hhead, statesAlong_succ hs', statesAlong, statesAlong, hs']
  | succ n ih =>
    obtain ⟨s', hs', htail⟩ := exists_next hidle h
    have htail' : es.getD (n + 1) idle = es.tail.getD n idle := by cases es <;> rfl
    rw [htail', statesAlong_succ hs', statesAlong_succ hs', ih htail]

end Along

theorem sum_map_set {β : Type*} {l : List β} {i : ℕ} {a : β} (h : l[i]? = some a) (μ : β → ℕ)
    (b : β) : ((l.set i b).map μ).sum + μ a = (l.map μ).sum + μ b := by
  induction l generalizing i with
  | nil => cases h
  | cons x l ih =>
    cases i with
    | zero =>
      obtain rfl := Option.some.inj h
      simp only [List.set_cons_zero, List.map_cons, List.sum_cons]
      omega
    | succ i =>
      have hrest := ih (i := i) h
      simp only [List.set_cons_succ, List.map_cons, List.sum_cons]
      omega

end Library
