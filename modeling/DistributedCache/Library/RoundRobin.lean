import Mathlib.Algebra.BigOperators.Group.List.Basic
import Mathlib.Algebra.Order.Ring.Rat
import Mathlib.Tactic.Linarith

/-!
# Visits in rounds

A process visits the items of a list one after another, pauses, and begins again. A visit takes at
most the cost of its item, and a pause has a bound too. Then the time that is left until the next
visit of an item ends shrinks at least as fast as time passes, and right after a visit it is the
cost of a whole round with its pause: no more than that lies between two visits.

## Main definitions

* `RoundRobin.Phase` : where the process stands.
* `RoundRobin.remaining` : the time until the next visit of an item ends, at most.
* `RoundRobin.period` : the cost of a round and its pause.

## Main results

* `RoundRobin.remaining_between_of_suffix` : a visit is followed by a whole period.
* `RoundRobin.remaining_visiting`, `RoundRobin.remaining_of_visited`,
  `RoundRobin.remaining_of_paused` : what the other events leave.
* `RoundRobin.remaining_nonneg` : something is left as long as the bounds are kept.
-/

namespace Library.RoundRobin

variable {ι : Type*}

/-- The process is about to begin a round, between two visits, at one, or pausing. -/
inductive Phase (ι : Type*)
  | idle
  | between (todo : List ι)
  | visiting (i : ι) (todo : List ι) (spent : ℚ)
  | pausing (spent : ℚ)

variable [DecidableEq ι] (cost : ι → ℚ) (pause : ℚ) (n : ι)

/-- The cost of the visits up to that of `n`, or of all and what comes after them. -/
def upTo (afterwards : ℚ) : List ι → ℚ
  | [] => afterwards
  | i :: todo => cost i + if i = n then 0 else upTo afterwards todo

/-- The time until the next visit of `n` ends, when a round visits the items `order`. -/
def remaining (order : List ι) : Phase ι → ℚ
  | .idle => upTo cost n 0 order
  | .between todo => upTo cost n (pause + upTo cost n 0 order) todo
  | .visiting i todo spent =>
    cost i - spent + if i = n then 0 else upTo cost n (pause + upTo cost n 0 order) todo
  | .pausing spent => pause - spent + upTo cost n 0 order

/-- The visit, or the pause, has not taken longer than its bound. -/
def Phase.Timely : Phase ι → Prop
  | .visiting i _ spent => spent ≤ cost i
  | .pausing spent => spent ≤ pause
  | _ => True

/-- The visits that are left are the last ones of a round. -/
def Phase.InRound (order : List ι) : Phase ι → Prop
  | .between todo => todo <:+ order
  | .visiting i todo _ => i :: todo <:+ order
  | _ => True

/-- The cost of the visits of a round and of the pause after it. -/
def period (order : List ι) : ℚ := (order.map cost).sum + pause

variable {cost pause n} {order todo : List ι}

theorem upTo_of_notMem (h : n ∉ todo) (afterwards : ℚ) :
    upTo cost n afterwards todo = (todo.map cost).sum + afterwards := by
  induction todo with
  | nil => exact (zero_add afterwards).symm
  | cons i todo ih =>
    have hne : i ≠ n := fun heq => h (heq ▸ List.mem_cons_self)
    rw [upTo, if_neg hne, ih fun hmem => h (List.mem_cons_of_mem _ hmem), List.map_cons,
      List.sum_cons, add_assoc]

/-- What comes after the visits does not matter if `n` is visited. -/
theorem upTo_of_mem (h : n ∈ todo) (afterwards : ℚ) :
    upTo cost n afterwards todo = upTo cost n 0 todo := by
  induction todo with
  | nil => cases h
  | cons i todo ih =>
    rw [upTo, upTo]
    by_cases hi : i = n
    · rw [if_pos hi, if_pos hi]
    · rw [if_neg hi, if_neg hi, ih ((List.mem_cons.mp h).resolve_left (Ne.symm hi))]

/-- Right after a visit of `n` a whole period is left. -/
theorem remaining_between_of_suffix (hnodup : order.Nodup) (hsuffix : n :: todo <:+ order) :
    remaining cost pause n order (.between todo) = period cost pause order := by
  obtain ⟨visited, rfl⟩ := hsuffix
  obtain ⟨-, htodo, hdisjoint⟩ := List.nodup_append.mp hnodup
  have hnot : n ∉ visited := fun hmem => hdisjoint n hmem n List.mem_cons_self rfl
  have hfirst : upTo cost n 0 (visited ++ n :: todo) = (visited.map cost).sum + cost n := by
    clear hnodup hdisjoint htodo
    induction visited with
    | nil => simp [upTo]
    | cons i visited ih =>
      have hne : i ≠ n := fun heq => hnot (heq ▸ List.mem_cons_self)
      rw [List.cons_append, upTo, if_neg hne, ih fun hmem => hnot (List.mem_cons_of_mem _ hmem),
        List.map_cons, List.sum_cons, add_assoc]
  rw [remaining, upTo_of_notMem (List.nodup_cons.mp htodo).1, hfirst, period, List.map_append,
    List.sum_append, List.map_cons, List.sum_cons]
  linarith

/-- A round begins. -/
theorem remaining_between (h : n ∈ order) :
    remaining cost pause n order (.between order) = remaining cost pause n order .idle := by
  rw [remaining, remaining, upTo_of_mem h]

/-- A visit begins. -/
theorem remaining_visiting (i : ι) :
    remaining cost pause n order (.visiting i todo 0) =
      remaining cost pause n order (.between (i :: todo)) := by
  rw [remaining, remaining, upTo, sub_zero]

/-- A visit of another item ends. -/
theorem remaining_of_visited {i : ι} {spent : ℚ} (hne : i ≠ n) (hspent : spent ≤ cost i) :
    remaining cost pause n order (.between todo) ≤
      remaining cost pause n order (.visiting i todo spent) := by
  rw [remaining, remaining, if_neg hne]
  linarith

/-- A pause begins. -/
theorem remaining_pausing :
    remaining cost pause n order (.pausing 0) = remaining cost pause n order (.between []) := by
  rw [remaining, remaining, upTo, sub_zero]

/-- A pause ends. -/
theorem remaining_of_paused {spent : ℚ} (hspent : spent ≤ pause) :
    remaining cost pause n order .idle ≤ remaining cost pause n order (.pausing spent) := by
  rw [remaining, remaining]
  linarith

/-- Time passes during a visit. -/
theorem remaining_visiting_add (i : ι) (spent passed : ℚ) :
    remaining cost pause n order (.visiting i todo (spent + passed)) =
      remaining cost pause n order (.visiting i todo spent) - passed := by
  rw [remaining, remaining]
  linarith

/-- Time passes during a pause. -/
theorem remaining_pausing_add (spent passed : ℚ) :
    remaining cost pause n order (.pausing (spent + passed)) =
      remaining cost pause n order (.pausing spent) - passed := by
  rw [remaining, remaining]
  linarith

theorem upTo_nonneg (hcost : ∀ i, 0 ≤ cost i) {afterwards : ℚ} (hafter : 0 ≤ afterwards)
    (todo : List ι) : 0 ≤ upTo cost n afterwards todo := by
  induction todo with
  | nil => exact hafter
  | cons i todo ih =>
    rw [upTo]
    split_ifs
    · linarith [hcost i]
    · linarith [hcost i]

theorem upTo_le_sum (hcost : ∀ i, 0 ≤ cost i) (todo : List ι) :
    upTo cost n 0 todo ≤ (todo.map cost).sum := by
  induction todo with
  | nil => exact le_rfl
  | cons i todo ih =>
    have hrest : 0 ≤ (todo.map cost).sum := (upTo_nonneg (n := n) hcost le_rfl todo).trans ih
    rw [upTo, List.map_cons, List.sum_cons]
    split_ifs
    · linarith
    · linarith

/-- Before a round no more than a period is left. -/
theorem remaining_idle_le_period (hcost : ∀ i, 0 ≤ cost i) (hpause : 0 ≤ pause) :
    remaining cost pause n order .idle ≤ period cost pause order := by
  rw [remaining, period]
  linarith [upTo_le_sum (n := n) hcost order]

/-- As long as the bounds are kept, something is left. -/
theorem remaining_nonneg (hcost : ∀ i, 0 ≤ cost i) (hpause : 0 ≤ pause) {phase : Phase ι}
    (htimely : phase.Timely cost pause) : 0 ≤ remaining cost pause n order phase := by
  have hround := upTo_nonneg (n := n) hcost le_rfl order
  have hrest : ∀ todo, 0 ≤ upTo cost n (pause + upTo cost n 0 order) todo :=
    upTo_nonneg hcost (by linarith)
  cases phase with
  | idle => exact hround
  | between todo => exact hrest todo
  | visiting i todo spent =>
    have hspent : spent ≤ cost i := htimely
    rw [remaining]
    split_ifs
    · linarith
    · linarith [hrest todo]
  | pausing spent =>
    have hspent : spent ≤ pause := htimely
    rw [remaining]
    linarith

end Library.RoundRobin
