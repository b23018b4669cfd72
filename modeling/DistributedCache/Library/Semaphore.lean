import Mathlib.Data.List.Perm.Basic

/-!
# Calls behind a semaphore

Tasks make one call each, and a semaphore lets only so many of them do so at the same time. A task
waits for a permit, makes its call, and gives the permit back some time after the call is over. As
no permit is lost, the number of calls under way is bounded, a task waits only while all permits
are taken, and what is left to do gets less with every step.

## Main definitions

* `Semaphore` : the permits that are left, and the tasks.
* `Semaphore.submit`, `Semaphore.acquire`, `Semaphore.finish`, `Semaphore.release` : its steps.
* `Semaphore.unfinished` : the tasks whose calls are not over.
* `Semaphore.Limits` : no permit is lost.

## Main results

* `Semaphore.Limits.length_le` : how many calls are under way.
* `Semaphore.Limits.exists_step` : while there are tasks some step can be taken.
* `Semaphore.load_acquire`, `Semaphore.load_finish`, `Semaphore.load_release` : what is left to do.
-/

namespace Library

variable {τ : Type*}

structure Semaphore (τ : Type*) where
  /-- The permits that are left. -/
  value : ℕ
  waiting : List τ
  /-- The tasks with a permit whose calls are under way. -/
  inside : List τ
  /-- The tasks whose calls are over and that have not given back their permits. -/
  leaving : List τ

namespace Semaphore

def init (limit : ℕ) : Semaphore τ := ⟨limit, [], [], []⟩

def submit (s : Semaphore τ) (tasks : List τ) : Semaphore τ :=
  { s with waiting := s.waiting ++ tasks }

/-- Some task takes a permit. -/
def acquire (s : Semaphore τ) (index : ℕ) : Option (Semaphore τ) :=
  if 0 < s.value then
    s.waiting[index]?.map fun task =>
      { s with
        value := s.value - 1
        waiting := s.waiting.eraseIdx index
        inside := s.inside ++ [task] }
  else none

/-- Some call is over. -/
def finish (s : Semaphore τ) (index : ℕ) : Option (τ × Semaphore τ) :=
  s.inside[index]?.map fun task =>
    (task, { s with inside := s.inside.eraseIdx index, leaving := s.leaving ++ [task] })

/-- Some task gives back its permit. -/
def release (s : Semaphore τ) (index : ℕ) : Option (Semaphore τ) :=
  s.leaving[index]?.map fun _ =>
    { s with value := s.value + 1, leaving := s.leaving.eraseIdx index }

/-- The tasks whose calls are not over. -/
def unfinished (s : Semaphore τ) : List τ := s.waiting ++ s.inside

/-- There are no tasks. -/
def Idle (s : Semaphore τ) : Prop := s.waiting = [] ∧ s.inside = [] ∧ s.leaving = []

/-- What is left to do: every task takes three steps. -/
def load (s : Semaphore τ) : ℕ := 3 * s.waiting.length + 2 * s.inside.length + s.leaving.length

variable {s s' : Semaphore τ} {index limit : ℕ} {task : τ}

/-! ### What a step can do -/

theorem acquire_cases (h : s.acquire index = some s') : 0 < s.value ∧
    ∃ task, s.waiting[index]? = some task ∧ s' =
      { s with
        value := s.value - 1
        waiting := s.waiting.eraseIdx index
        inside := s.inside ++ [task] } := by
  rw [acquire] at h
  split_ifs at h with hvalue
  obtain ⟨task, htask, rfl⟩ := Option.map_eq_some_iff.mp h
  exact ⟨hvalue, task, htask, rfl⟩

theorem finish_cases (h : s.finish index = some (task, s')) : s.inside[index]? = some task ∧
    s' = { s with inside := s.inside.eraseIdx index, leaving := s.leaving ++ [task] } := by
  obtain ⟨t, ht, heq⟩ := Option.map_eq_some_iff.mp h
  obtain ⟨rfl, rfl⟩ := Prod.mk.inj heq
  exact ⟨ht, rfl⟩

theorem release_cases (h : s.release index = some s') : ∃ task, s.leaving[index]? = some task ∧
    s' = { s with value := s.value + 1, leaving := s.leaving.eraseIdx index } := by
  obtain ⟨task, htask, rfl⟩ := Option.map_eq_some_iff.mp h
  exact ⟨task, htask, rfl⟩

theorem perm_cons_eraseIdx {l : List τ} (h : l[index]? = some task) :
    l.Perm (task :: l.eraseIdx index) := by
  obtain ⟨hlt, rfl⟩ := List.getElem?_eq_some_iff.mp h
  exact (List.getElem_cons_eraseIdx_perm hlt).symm

private theorem length_eraseIdx_of_getElem? {l : List τ} (h : l[index]? = some task) :
    l.length = (l.eraseIdx index).length + 1 :=
  (List.length_eraseIdx_add_one (List.getElem?_eq_some_iff.mp h).1).symm

/-! ### The tasks whose calls are not over -/

theorem unfinished_submit (s : Semaphore τ) (tasks : List τ) :
    (s.submit tasks).unfinished.Perm (s.unfinished ++ tasks) := by
  simp only [unfinished, submit, List.append_assoc]
  exact List.perm_append_comm.append_left _

theorem unfinished_acquire (h : s.acquire index = some s') :
    s'.unfinished.Perm s.unfinished := by
  obtain ⟨-, task, htask, rfl⟩ := acquire_cases h
  simp only [unfinished]
  refine .trans ?_ ((perm_cons_eraseIdx htask).symm.append_right s.inside)
  rw [← List.append_assoc]
  exact List.perm_append_singleton _ _

theorem unfinished_finish (h : s.finish index = some (task, s')) :
    s.unfinished.Perm (task :: s'.unfinished) := by
  obtain ⟨htask, rfl⟩ := finish_cases h
  exact ((perm_cons_eraseIdx htask).append_left s.waiting).trans List.perm_middle

theorem unfinished_release (h : s.release index = some s') : s'.unfinished = s.unfinished := by
  obtain ⟨task, -, rfl⟩ := release_cases h
  rfl

/-! ### The permits -/

/-- No permit is lost. -/
structure Limits (limit : ℕ) (s : Semaphore τ) : Prop where
  permits : s.value + (s.inside.length + s.leaving.length) = limit

theorem limits_init (limit : ℕ) : (init limit : Semaphore τ).Limits limit := ⟨rfl⟩

namespace Limits

theorem submit (h : s.Limits limit) (tasks : List τ) : (s.submit tasks).Limits limit := ⟨h.permits⟩

theorem acquire (h : s.Limits limit) (hs : s.acquire index = some s') : s'.Limits limit := by
  obtain ⟨hvalue, task, -, rfl⟩ := acquire_cases hs
  have hpermits := h.permits
  refine ⟨?_⟩
  simp only [List.length_append, List.length_singleton]
  omega

theorem finish (h : s.Limits limit) (hs : s.finish index = some (task, s')) :
    s'.Limits limit := by
  obtain ⟨htask, rfl⟩ := finish_cases hs
  have hlength := length_eraseIdx_of_getElem? htask
  have hpermits := h.permits
  refine ⟨?_⟩
  simp only [List.length_append, List.length_singleton]
  omega

theorem release (h : s.Limits limit) (hs : s.release index = some s') : s'.Limits limit := by
  obtain ⟨task, htask, rfl⟩ := release_cases hs
  have hlength := length_eraseIdx_of_getElem? htask
  have hpermits := h.permits
  refine ⟨?_⟩
  dsimp only
  omega

/-- How many calls are under way. -/
theorem length_le (h : s.Limits limit) : s.inside.length + s.leaving.length ≤ limit := by
  have hpermits := h.permits
  omega

/-- While there are tasks some step can be taken. -/
theorem exists_step (h : s.Limits limit) (hlimit : 0 < limit) (hidle : ¬s.Idle) :
    (∃ s', s.acquire 0 = some s') ∨ (∃ task s', s.finish 0 = some (task, s')) ∨
      ∃ s', s.release 0 = some s' := by
  have hpermits := h.permits
  obtain ⟨value, waiting, inside, leaving⟩ := s
  cases leaving with
  | cons task leaving => exact Or.inr (Or.inr ⟨_, rfl⟩)
  | nil =>
    cases inside with
    | cons task inside => exact Or.inr (Or.inl ⟨_, _, rfl⟩)
    | nil =>
      cases waiting with
      | nil => exact absurd ⟨rfl, rfl, rfl⟩ hidle
      | cons task waiting =>
        -- nobody holds a permit
        simp only [List.length_nil, Nat.add_zero] at hpermits
        exact Or.inl ⟨_, if_pos (hpermits ▸ hlimit)⟩

end Limits

/-! ### What is left to do -/

theorem load_acquire (h : s.acquire index = some s') : s'.load < s.load := by
  obtain ⟨-, task, htask, rfl⟩ := acquire_cases h
  have hlength := length_eraseIdx_of_getElem? htask
  simp only [load, List.length_append, List.length_singleton]
  omega

theorem load_finish (h : s.finish index = some (task, s')) : s'.load < s.load := by
  obtain ⟨htask, rfl⟩ := finish_cases h
  have hlength := length_eraseIdx_of_getElem? htask
  simp only [load, List.length_append, List.length_singleton]
  omega

theorem load_release (h : s.release index = some s') : s'.load < s.load := by
  obtain ⟨task, htask, rfl⟩ := release_cases h
  have hlength := length_eraseIdx_of_getElem? htask
  simp only [load]
  omega

end Semaphore

end Library
