import DistributedCache.Library.Run
import Mathlib.Data.Finset.Basic
import Mathlib.Data.Set.Basic

/-!
# Moving the copies of one item between sets of nodes

An item has copies on some of the nodes. A *job* moves the copies from an old set of nodes to a
goal: it reads the copies of the members one by one, plans writes from what it saw, and carries
the writes out in any order. Reads may fail, which ends the job, and writes may be lost. The
plan stores a copy that was seen on every goal node that had none, and erases the copies that
were seen off the goal. Several jobs may be at work, others may write copies in between, and
nodes may join, which changes the goal of the jobs that begin later and submits a job.

## Main definitions

* `Relocation.State`, `Relocation.Action`, `Relocation.Step` : the machine.
* `Relocation.Plans` : the writes that a job may plan from what it saw.
* `Relocation.Lone` : what a job has done that is alone at work.

## Main results

* `Relocation.Step.writesToward` : jobs that write toward the goal go on doing so.
* `Relocation.Step.storesOnly` : so do jobs that store one copy only.
* `Relocation.Lone.step` : a job that is alone stays in this invariant.
* `Relocation.Lone.hold_of_mem_goal` : a copy on a goal node survives, whatever fails.
* `Relocation.Lone.settled` : when the job ends without failures, exactly the goal holds copies.
-/

namespace Library

namespace Relocation

variable {N α : Type*}

/-- A write to the copy on one node: `some a` stores the copy `a`, `none` erases the copy. -/
structure Write (N α : Type*) where
  node : N
  value : Option α

/-- Where a job stands. `seen n` is what was read on the node `n`, if it was read. -/
inductive Phase (N α : Type*)
  | waiting
  | reading (goal : Finset N) (todo : List N) (seen : N → Option (Option α))
  | writing (goal : Finset N) (pending : Set (Write N α))

structure Job (N α : Type*) where
  old : Finset N
  phase : Phase N α

/-- The copies, the members, the goal of the jobs that begin now, and the jobs. -/
structure State (N α : Type*) where
  members : List N
  goal : Finset N
  hold : N → Option α
  jobs : List (Job N α)

inductive Action (N α : Type*)
  | begin (i : ℕ)
  | read (i : ℕ)
  | abort (i : ℕ)
  | plan (i : ℕ)
  | perform (i : ℕ) (w : Write N α)
  | skip (i : ℕ) (w : Write N α)
  /-- a write by somebody else -/
  | store (w : Write N α)
  /-- nodes join -/
  | join

/-- The action is taken by a job. -/
def Action.OfJob : Action N α → Prop
  | .store _ | .join => False
  | _ => True

/-- The action is no failure. -/
def Action.Succeeds : Action N α → Prop
  | .abort _ | .skip _ _ => False
  | _ => True

/-- The write that the action carries out. -/
def Action.written : Action N α → Option (Write N α)
  | .perform _ w | .store w => some w
  | _ => none

/-- The job has no writes left. -/
def Job.Ended (job : Job N α) : Prop := ∃ goal, job.phase = .writing goal ∅

/-- A copy was seen on the node. -/
def Sees (seen : N → Option (Option α)) (n : N) : Prop := ∃ a, seen n = some (some a)

section Plan

variable [DecidableEq N]

/-- The write brings its node to the placement of the copy `a` on exactly the goal. -/
def Write.Toward (goal : Finset N) (a : α) (w : Write N α) : Prop :=
  w.value = if w.node ∈ goal then some a else none

/-- The item moves: there are nodes before and after, and they are not the same. -/
def Moves (old goal : Finset N) : Prop := old.Nonempty ∧ goal.Nonempty ∧ old ≠ goal

instance (old goal : Finset N) : Decidable (Moves old goal) :=
  inferInstanceAs (Decidable (old.Nonempty ∧ goal.Nonempty ∧ old ≠ goal))

/-- Writes toward the goal, on the members that are not there according to what was seen. -/
def planned (goal : Finset N) (members : List N) (seen : N → Option (Option α)) (a : α) :
    Set (Write N α) :=
  {w | w.Toward goal a ∧ w.node ∈ members ∧ (w.node ∈ goal ↔ ¬Sees seen w.node)}

/-- The writes that may be planned: none unless the item moves and a copy was seen, and then
those toward the goal with a copy that was seen. -/
inductive Plans (old goal : Finset N) (members : List N) (seen : N → Option (Option α)) :
    Set (Write N α) → Prop
  | idle (h : Moves old goal → ∀ n, ¬Sees seen n) : Plans old goal members seen ∅
  | move {n : N} {a : α} (hmoves : Moves old goal) (hn : seen n = some (some a)) :
      Plans old goal members seen (planned goal members seen a)

end Plan

namespace State

/-- The phase of a job changes. -/
def setPhase (s : State N α) (i : ℕ) (old : Finset N) (phase : Phase N α) : State N α :=
  { s with jobs := s.jobs.set i ⟨old, phase⟩ }

/-- The copy of a node is written. -/
def write [DecidableEq N] (s : State N α) (w : Write N α) : State N α :=
  { s with hold := Function.update s.hold w.node w.value }

/-- What holds of all jobs and of the new one holds when the phase of one job changes. -/
theorem forall_setPhase {s : State N α} {P : Job N α → Prop} (h : ∀ job ∈ s.jobs, P job) {i : ℕ}
    {old : Finset N} {phase : Phase N α} (hphase : P ⟨old, phase⟩) :
    ∀ job ∈ (s.setPhase i old phase).jobs, P job := by
  intro job hmem
  rcases List.mem_or_eq_of_mem_set hmem with hmem | rfl
  · exact h job hmem
  · exact hphase

end State

/-- The steps of the machine. -/
inductive Step [DecidableEq N] : State N α → Action N α → State N α → Prop
  | begin {s : State N α} {i : ℕ} {old : Finset N} (h : s.jobs[i]? = some ⟨old, .waiting⟩) :
      Step s (.begin i) (s.setPhase i old (.reading s.goal s.members fun _ => none))
  | read {s : State N α} {i : ℕ} {old goal : Finset N} {n : N} {todo : List N}
      {seen : N → Option (Option α)}
      (h : s.jobs[i]? = some ⟨old, .reading goal (n :: todo) seen⟩) :
      Step s (.read i)
        (s.setPhase i old (.reading goal todo (Function.update seen n (some (s.hold n)))))
  | abort {s : State N α} {i : ℕ} {old goal : Finset N} {todo : List N}
      {seen : N → Option (Option α)} (h : s.jobs[i]? = some ⟨old, .reading goal todo seen⟩) :
      Step s (.abort i) (s.setPhase i old (.writing goal ∅))
  | plan {s : State N α} {i : ℕ} {old goal : Finset N} {seen : N → Option (Option α)}
      {pending : Set (Write N α)} (h : s.jobs[i]? = some ⟨old, .reading goal [] seen⟩)
      (hplan : Plans old goal s.members seen pending) :
      Step s (.plan i) (s.setPhase i old (.writing goal pending))
  | perform {s : State N α} {i : ℕ} {old goal : Finset N} {pending pending' : Set (Write N α)}
      {w : Write N α} (h : s.jobs[i]? = some ⟨old, .writing goal pending⟩) (hw : w ∈ pending)
      (hsub : pending' ⊆ pending) (hrest : ∀ w' ∈ pending, w' = w ∨ w' ∈ pending') :
      Step s (.perform i w) ((s.write w).setPhase i old (.writing goal pending'))
  | skip {s : State N α} {i : ℕ} {old goal : Finset N} {pending pending' : Set (Write N α)}
      {w : Write N α} (h : s.jobs[i]? = some ⟨old, .writing goal pending⟩) (hw : w ∈ pending)
      (hsub : pending' ⊆ pending) :
      Step s (.skip i w) (s.setPhase i old (.writing goal pending'))
  | store {s : State N α} (w : Write N α) : Step s (.store w) (s.write w)
  | join {s : State N α} {members : List N} {goal : Finset N} {hold : N → Option α}
      (hsub : s.members ⊆ members)
      (hhold : ∀ n ∈ members, hold n = if n ∈ s.members then s.hold n else none) :
      Step s .join ⟨members, goal, hold, s.jobs ++ [⟨s.goal, .waiting⟩]⟩

/-- The state takes a step, or stays as it is where there is no action. -/
def StepOrStay [DecidableEq N] (s : State N α) (a : Option (Action N α)) (s' : State N α) : Prop :=
  match a with
  | none => s' = s
  | some a => Step s a s'

/-! ### Planned writes -/

section Plan

variable [DecidableEq N] {old goal : Finset N} {members : List N}
  {seen : N → Option (Option α)} {plan : Set (Write N α)}

/-- All planned writes go toward the goal with one copy that was seen. -/
theorem Plans.exists_toward (h : Plans old goal members seen plan) {w : Write N α}
    (hw : w ∈ plan) : ∃ n a, seen n = some (some a) ∧ ∀ w' ∈ plan, w'.Toward goal a := by
  cases h with
  | idle h => exact absurd hw (Set.notMem_empty w)
  | move hmoves hn => exact ⟨_, _, hn, fun w' hw' => hw'.1⟩

/-- A planned write stores a copy that was seen. -/
theorem Plans.exists_of_value (h : Plans old goal members seen plan) {w : Write N α} (hw : w ∈ plan)
    {a : α} (ha : w.value = some a) : ∃ n, seen n = some (some a) := by
  obtain ⟨n, b, hn, htoward⟩ := h.exists_toward hw
  have hvalue := htoward w hw
  rw [Write.Toward, ha] at hvalue
  split_ifs at hvalue
  exact ⟨n, by rw [hn, Option.some.inj hvalue]⟩

/-- A goal node on which a copy was seen is not written. -/
theorem Plans.node_ne (h : Plans old goal members seen plan) {n : N} (hn : n ∈ goal)
    (hsees : Sees seen n) {w : Write N α} (hw : w ∈ plan) : w.node ≠ n := by
  rintro rfl
  cases h with
  | idle h => exact Set.notMem_empty w hw
  | move hmoves hn' => exact hw.2.2.mp hn hsees

theorem Plans.eq_empty (h : Plans old goal members seen plan)
    (hidle : Moves old goal → ∀ n, ¬Sees seen n) : plan = ∅ := by
  cases h with
  | idle h => rfl
  | move hmoves hn => exact absurd ⟨_, hn⟩ (hidle hmoves _)

/-- When the item moves and a copy was seen, all members that are not at the goal according to
what was seen are written. -/
theorem Plans.exists_write (h : Plans old goal members seen plan) (hmoves : Moves old goal)
    {m : N} (hm : Sees seen m) {n : N} (hn : n ∈ members) (hdiff : n ∈ goal ↔ ¬Sees seen n) :
    ∃ w ∈ plan, w.node = n := by
  cases h with
  | idle h => exact absurd hm (h hmoves m)
  | move hmoves' hseen =>
    exact ⟨⟨n, if n ∈ goal then some _ else none⟩, ⟨rfl, hn, hdiff⟩, rfl⟩

theorem Write.Toward.value_eq {a : α} {w w' : Write N α} (h : w.Toward goal a)
    (h' : w'.Toward goal a) (hnode : w.node = w'.node) : w.value = w'.value := by
  rw [Toward] at h h'
  rw [h, h', hnode]

end Plan

/-! ### Writes of the machine -/

section Writes

variable {s s' : State N α} {act : Action N α} {goal : Finset N}

/-- The job stores on nodes of the goal and erases elsewhere. -/
def Job.WritesToward (goal : Finset N) (job : Job N α) : Prop :=
  match job.phase with
  | .waiting => True
  | .reading goal' _ _ => goal' = goal
  | .writing _ pending => ∀ w ∈ pending, w.value.isSome = true ↔ w.node ∈ goal

theorem Job.Ended.writesToward {job : Job N α} (h : job.Ended) : job.WritesToward goal := by
  obtain ⟨goal', hphase⟩ := h
  rw [Job.WritesToward, hphase]
  exact fun w hw => absurd hw (Set.notMem_empty w)

/-- The copies that the job still has to store are `a`. -/
def Job.StoresOnly (a : α) (job : Job N α) : Prop :=
  ∀ goal pending, job.phase = .writing goal pending → ∀ w ∈ pending, ∀ b, w.value = some b → b = a

theorem Job.Ended.storesOnly {job : Job N α} (h : job.Ended) (a : α) : job.StoresOnly a := by
  rintro goal pending hphase w hw
  obtain ⟨goal', hended⟩ := h
  obtain ⟨-, rfl⟩ := Phase.writing.inj (hended.symm.trans hphase)
  exact absurd hw (Set.notMem_empty w)

variable [DecidableEq N]

/-- Copies change only by the write that the action carries out. -/
theorem Step.hold_eq (h : Step s act s') (hjoin : act ≠ .join) (n : N) :
    s'.hold n = s.hold n ∨ ∃ w, act.written = some w ∧ w.node = n ∧ s'.hold n = w.value := by
  have hwrite : ∀ w : Write N α, (s.write w).hold n = s.hold n ∨
      w.node = n ∧ (s.write w).hold n = w.value := by
    intro w
    change Function.update s.hold w.node w.value n = _ ∨ _ ∧ Function.update _ _ _ n = _
    by_cases hn : n = w.node
    · exact Or.inr ⟨hn.symm, by rw [hn, Function.update_self]⟩
    · exact Or.inl (Function.update_of_ne hn _ _)
  cases h with
  | begin hj => exact Or.inl rfl
  | read hj => exact Or.inl rfl
  | abort hj => exact Or.inl rfl
  | plan hj hplan => exact Or.inl rfl
  | skip hj hw hsub => exact Or.inl rfl
  | @perform i old goal pending pending' w hj hw hsub hrest =>
    exact (hwrite w).imp_right fun hw => ⟨w, rfl, hw⟩
  | store w => exact (hwrite w).imp_right fun hw => ⟨w, rfl, hw⟩
  | join hsub hhold => exact absurd rfl hjoin

/-- The write that the action carries out is in effect afterwards. -/
theorem Step.hold_of_written (h : Step s act s') {w : Write N α} (hw : act.written = some w) :
    s'.hold w.node = w.value := by
  cases h with
  | begin hj => cases hw
  | read hj => cases hw
  | abort hj => cases hw
  | plan hj hplan => cases hw
  | skip hj hw' hsub => cases hw
  | perform hj hw' hsub hrest =>
    obtain rfl := Option.some.inj hw
    exact Function.update_self _ _ _
  | store w' =>
    obtain rfl := Option.some.inj hw
    exact Function.update_self _ _ _
  | join hsub hhold => cases hw

theorem Plans.writesToward {old : Finset N} {members : List N} {seen : N → Option (Option α)}
    {plan : Set (Write N α)} (h : Plans old goal members seen plan) :
    ∀ w ∈ plan, w.value.isSome = true ↔ w.node ∈ goal := by
  intro w hw
  obtain ⟨-, a, -, htoward⟩ := h.exists_toward hw
  rw [htoward w hw]
  split_ifs with hgoal <;> simp [hgoal]

/-- As long as the goal stays, all jobs write toward it. -/
theorem Step.writesToward (h : Step s act s') (hjoin : act ≠ .join)
    (hjobs : ∀ job ∈ s.jobs, job.WritesToward s.goal) :
    ∀ job ∈ s'.jobs, job.WritesToward s.goal := by
  cases h with
  | begin hj => exact State.forall_setPhase hjobs rfl
  | @read i old goal n todo seen hj =>
    have hgoal : goal = s.goal := hjobs _ (List.mem_of_getElem? hj)
    exact State.forall_setPhase hjobs hgoal
  | abort hj => exact State.forall_setPhase hjobs fun w hw => absurd hw (Set.notMem_empty w)
  | @plan i old goal seen pending hj hplan =>
    have hgoal : goal = s.goal := hjobs _ (List.mem_of_getElem? hj)
    exact State.forall_setPhase hjobs fun w hw => hgoal ▸ hplan.writesToward w hw
  | @perform i old goal pending pending' w hj hw hsub hrest =>
    have hpending := hjobs _ (List.mem_of_getElem? hj)
    have hjobs' : ∀ job ∈ (s.write w).jobs, job.WritesToward s.goal := hjobs
    exact State.forall_setPhase hjobs' fun w hw => hpending w (hsub hw)
  | skip hj hw hsub =>
    have hpending := hjobs _ (List.mem_of_getElem? hj)
    exact State.forall_setPhase hjobs fun w hw => hpending w (hsub hw)
  | store w => exact hjobs
  | join hsub hhold => exact absurd rfl hjoin

theorem Step.isSome_of_perform {i : ℕ} {w : Write N α} (h : Step s (.perform i w) s')
    (hjobs : ∀ job ∈ s.jobs, job.WritesToward goal) : w.value.isSome = true ↔ w.node ∈ goal := by
  cases h with
  | perform hj hw hsub hrest => exact hjobs _ (List.mem_of_getElem? hj) w hw

/-- Jobs store one copy only, if this is so of the jobs that have just planned. -/
theorem Step.storesOnly (h : Step s act s') (hjoin : act ≠ .join) {a : α}
    (hjobs : ∀ job ∈ s.jobs, job.StoresOnly a)
    (hplan : ∀ i job, act = .plan i → s'.jobs[i]? = some job → job.StoresOnly a) :
    ∀ job ∈ s'.jobs, job.StoresOnly a := by
  have hsubset : ∀ {i : ℕ} {old goal : Finset N} {pending pending' : Set (Write N α)},
      s.jobs[i]? = some ⟨old, .writing goal pending⟩ → pending' ⊆ pending →
      Job.StoresOnly a ⟨old, .writing goal pending'⟩ := by
    intro i old goal pending pending' hj hsub goal' pending'' heq w hw
    obtain ⟨-, rfl⟩ := Phase.writing.inj heq
    exact hjobs _ (List.mem_of_getElem? hj) goal pending rfl w (hsub hw)
  cases h with
  | begin hj => exact State.forall_setPhase hjobs fun goal pending heq => by cases heq
  | read hj => exact State.forall_setPhase hjobs fun goal pending heq => by cases heq
  | abort hj => exact State.forall_setPhase hjobs (Job.Ended.storesOnly ⟨_, rfl⟩ a)
  | @plan i old goal seen pending hj hplanned =>
    have hlt := (List.getElem?_eq_some_iff.mp hj).1
    exact State.forall_setPhase hjobs (hplan i _ rfl (List.getElem?_set_self hlt))
  | @perform i old goal pending pending' w hj hw hsub hrest =>
    have hjobs' : ∀ job ∈ (s.write w).jobs, job.StoresOnly a := hjobs
    exact State.forall_setPhase hjobs' (hsubset hj hsub)
  | skip hj hw hsub => exact State.forall_setPhase hjobs (hsubset hj hsub)
  | store w => exact hjobs
  | join hsub hhold => exact absurd rfl hjoin

/-- A job that stores one copy only keeps a copy, erases it, or makes it that one. -/
theorem Step.hold_of_storesOnly (h : Step s act s') (hjob : act.OfJob) {a : α}
    (hjobs : ∀ job ∈ s.jobs, job.StoresOnly a) (n : N) :
    s'.hold n = s.hold n ∨ s'.hold n = none ∨ s'.hold n = some a := by
  have hjoin : act ≠ .join := fun heq => by rw [heq] at hjob; exact hjob
  rcases h.hold_eq hjoin n with heq | ⟨w, hw, rfl, heq⟩
  · exact Or.inl heq
  · cases h with
    | @perform i old goal pending pending' w' hj hmem hsub hrest =>
      obtain rfl := Option.some.inj hw
      have honly := hjobs _ (List.mem_of_getElem? hj) goal pending rfl w' hmem
      rw [heq]
      cases hvalue : w'.value with
      | none => exact Or.inr (Or.inl rfl)
      | some b => exact Or.inr (Or.inr (congrArg some (honly b hvalue)))
    | store w' => exact hjob.elim
    | join hsub hhold => exact hjob.elim
    | _ => cases hw

end Writes

/-! ### A job that is alone at work -/

private theorem writing_ne {goal goal' : Finset N} {pending : Set (Write N α)} {w : Write N α}
    (hw : w ∈ pending) : Phase.writing goal pending ≠ .writing goal' ∅ := by
  intro heq
  rw [(Phase.writing.inj heq).2] at hw
  exact hw

/-- What a job has read and written since the copies were `H`, when nobody else wrote. With
`succeeds` it had no failures. -/
inductive Progress [DecidableEq N] (H : N → Option α) (old goal : Finset N) (members : List N)
    (succeeds : Prop) : Phase N α → (N → Option α) → Prop
  | waiting : Progress H old goal members succeeds .waiting H
  | reading {todo : List N} {seen : N → Option (Option α)} (htodo : todo ⊆ members)
      (hexact : ∀ n x, seen n = some x → n ∈ members ∧ x = H n)
      (hcover : ∀ n ∈ members, n ∈ todo ∨ seen n = some (H n)) :
      Progress H old goal members succeeds (.reading goal todo seen) H
  | aborted (hfail : ¬succeeds) : Progress H old goal members succeeds (.writing goal ∅) H
  | writing {seen : N → Option (Option α)} {plan pending : Set (Write N α)} {hold : N → Option α}
      (hexact : ∀ n x, seen n = some x → n ∈ members ∧ x = H n)
      (hall : ∀ n ∈ members, seen n = some (H n)) (hplan : Plans old goal members seen plan)
      (hsub : pending ⊆ plan)
      (hhold : ∀ n, hold n = H n ∨ ∃ w ∈ plan, w.node = n ∧ hold n = w.value)
      (hleft : succeeds → ∀ w ∈ plan, w ∈ pending ∨ hold w.node = w.value) :
      Progress H old goal members succeeds (.writing goal pending) hold

namespace Progress

variable [DecidableEq N] {H hold : N → Option α} {old goal goal' : Finset N} {members : List N}
  {succeeds : Prop} {seen : N → Option (Option α)} {pending pending' : Set (Write N α)}
  {w : Write N α}

theorem read {n : N} {todo : List N}
    (h : Progress H old goal members succeeds (.reading goal' (n :: todo) seen) hold) :
    Progress H old goal members succeeds
      (.reading goal' todo (Function.update seen n (some (hold n)))) hold := by
  cases h with
  | reading htodo hexact hcover =>
    refine .reading (fun m hm => htodo (List.mem_cons_of_mem n hm)) (fun m x hx => ?_)
      fun m hm => ?_
    · by_cases hmn : m = n
      · rw [hmn, Function.update_self] at hx
        rw [hmn]
        exact ⟨htodo List.mem_cons_self, (Option.some.inj hx).symm⟩
      · rw [Function.update_of_ne hmn] at hx
        exact hexact m x hx
    · by_cases hmn : m = n
      · exact Or.inr (by rw [hmn, Function.update_self])
      · rw [Function.update_of_ne hmn]
        refine (hcover m hm).imp_left fun hmem => ?_
        exact (List.mem_cons.mp hmem).resolve_left hmn

theorem plan (h : Progress H old goal members succeeds (.reading goal' [] seen) hold)
    (hplan : Plans old goal' members seen pending) :
    Progress H old goal members succeeds (.writing goal' pending) hold := by
  cases h with
  | reading htodo hexact hcover =>
    exact .writing hexact (fun n hn => (hcover n hn).resolve_left List.not_mem_nil) hplan
      (fun w hw => hw) (fun n => Or.inl rfl) fun _ w hw => Or.inl hw

theorem perform (h : Progress H old goal members succeeds (.writing goal' pending) hold)
    (hw : w ∈ pending) (hsub : pending' ⊆ pending)
    (hrest : ∀ w' ∈ pending, w' = w ∨ w' ∈ pending') :
    Progress H old goal members succeeds (.writing goal' pending')
      (Function.update hold w.node w.value) := by
  cases h with
  | aborted hfail => exact absurd hw (Set.notMem_empty w)
  | @writing seen plan _ _ hexact hall hplan hsub' hhold hleft =>
    refine .writing hexact hall hplan (hsub.trans hsub') (fun n => ?_) fun hs w' hw' => ?_
    · by_cases hn : n = w.node
      · exact Or.inr ⟨w, hsub' hw, hn.symm, by rw [hn, Function.update_self]⟩
      · rw [Function.update_of_ne hn]
        exact hhold n
    · by_cases hnode : w'.node = w.node
      · -- both writes go toward the goal with the same copy
        obtain ⟨m, a, -, htoward⟩ := hplan.exists_toward hw'
        refine Or.inr ?_
        rw [hnode, Function.update_self]
        exact (htoward w (hsub' hw)).value_eq (htoward w' hw') hnode.symm
      · rw [Function.update_of_ne hnode]
        refine (hleft hs w' hw').imp_left fun hmem => ?_
        exact (hrest w' hmem).resolve_left fun heq => hnode (heq ▸ rfl)

theorem skip (h : Progress H old goal members succeeds (.writing goal' pending) hold)
    (hw : w ∈ pending) (hsub : pending' ⊆ pending) (hfail : ¬succeeds) :
    Progress H old goal members succeeds (.writing goal' pending') hold := by
  cases h with
  | aborted hfail => exact absurd hw (Set.notMem_empty w)
  | writing hexact hall hplan hsub' hhold hleft =>
    exact .writing hexact hall hplan (hsub.trans hsub') hhold fun hs => absurd hs hfail

end Progress

/-- Job `i` is at work, all others have ended. -/
structure Lone [DecidableEq N] (H : N → Option α) (old goal : Finset N) (members : List N)
    (succeeds : Prop) (i : ℕ) (s : State N α) : Prop where
  goal_eq : s.goal = goal
  members_eq : s.members = members
  others : ∀ j job, s.jobs[j]? = some job → j ≠ i → job.Ended
  own : ∃ phase, s.jobs[i]? = some ⟨old, phase⟩ ∧
    Progress H old goal members succeeds phase s.hold

namespace Lone

variable [DecidableEq N] {H : N → Option α} {old goal : Finset N} {members : List N}
  {succeeds : Prop} {i : ℕ} {s s' : State N α}

/-- A step of a job whose phase is not that of an ended job is a step of job `i`. -/
private theorem eq_of_phase (h : Lone H old goal members succeeds i s) {j : ℕ} {old' : Finset N}
    {phase : Phase N α} (hj : s.jobs[j]? = some ⟨old', phase⟩)
    (hphase : ∀ goal', phase ≠ .writing goal' ∅) :
    j = i ∧ old' = old ∧ Progress H old goal members succeeds phase s.hold := by
  obtain ⟨phase', hi, hprogress⟩ := h.own
  have hji : j = i := by
    by_contra hne
    obtain ⟨goal', hended⟩ := h.others j _ hj hne
    exact hphase goal' hended
  rw [hji, hi] at hj
  obtain ⟨rfl, rfl⟩ := Job.mk.inj (Option.some.inj hj)
  exact ⟨hji, rfl, hprogress⟩

private theorem of_phase (h : Lone H old goal members succeeds i s) (hold : N → Option α)
    {phase : Phase N α} (hprogress : Progress H old goal members succeeds phase hold) :
    Lone H old goal members succeeds i
      { s.setPhase i old phase with hold := hold } := by
  refine ⟨h.goal_eq, h.members_eq, fun j job hj hne => ?_, phase, ?_, hprogress⟩
  · change (s.jobs.set i _)[j]? = some job at hj
    rw [List.getElem?_set_ne (Ne.symm hne)] at hj
    exact h.others j job hj hne
  · obtain ⟨phase', hi, -⟩ := h.own
    have hlt := (List.getElem?_eq_some_iff.mp hi).1
    change (s.jobs.set i _)[i]? = _
    rw [List.getElem?_set_self hlt]

/-- One step of the job that is alone. -/
theorem step (h : Lone H old goal members succeeds i s) {a : Action N α} (hstep : Step s a s')
    (hjob : a.OfJob) (hsucceeds : succeeds → a.Succeeds) :
    Lone H old goal members succeeds i s' := by
  cases hstep with
  | begin hj =>
    obtain ⟨rfl, rfl, hprogress⟩ := h.eq_of_phase hj (by simp)
    refine h.of_phase s.hold ?_
    rw [h.goal_eq, h.members_eq]
    generalize s.hold = hold at hprogress ⊢
    cases hprogress with
    | waiting =>
      exact .reading (List.Subset.refl _) (fun n x hx => by cases hx) fun n hn => Or.inl hn
  | read hj =>
    obtain ⟨rfl, rfl, hprogress⟩ := h.eq_of_phase hj (by simp)
    exact h.of_phase s.hold hprogress.read
  | abort hj =>
    obtain ⟨rfl, rfl, hprogress⟩ := h.eq_of_phase hj (by simp)
    refine h.of_phase s.hold ?_
    generalize s.hold = hold at hprogress ⊢
    cases hprogress with
    | reading htodo hexact hcover => exact .aborted fun hs => hsucceeds hs
  | plan hj hplan =>
    obtain ⟨rfl, rfl, hprogress⟩ := h.eq_of_phase hj (by simp)
    rw [h.members_eq] at hplan
    exact h.of_phase s.hold (hprogress.plan hplan)
  | perform hj hw hsub hrest =>
    obtain ⟨rfl, rfl, hprogress⟩ := h.eq_of_phase hj fun _ => writing_ne hw
    exact h.of_phase _ (hprogress.perform hw hsub hrest)
  | skip hj hw hsub =>
    obtain ⟨rfl, rfl, hprogress⟩ := h.eq_of_phase hj fun _ => writing_ne hw
    exact h.of_phase s.hold (hprogress.skip hw hsub fun hs => hsucceeds hs)
  | store w => exact hjob.elim
  | join hsub hhold => exact hjob.elim

theorem writesToward (h : Lone H old goal members succeeds i s) :
    ∀ job ∈ s.jobs, job.WritesToward goal := by
  intro job hmem
  obtain ⟨j, hj⟩ := List.mem_iff_getElem?.mp hmem
  by_cases hji : j = i
  · obtain ⟨phase, hi, hprogress⟩ := h.own
    rw [hji, hi] at hj
    rw [← Option.some.inj hj]
    cases hprogress with
    | waiting => trivial
    | reading htodo hexact hcover => rfl
    | aborted hfail => exact fun w hw => absurd hw (Set.notMem_empty w)
    | writing hexact hall hplan hsub hhold hleft => exact fun w hw => hplan.writesToward w (hsub hw)
  · exact (h.others j job hj hji).writesToward

/-- A copy on a goal node survives, whatever fails. -/
theorem hold_of_mem_goal (h : Lone H old goal members succeeds i s) {n : N} (hn : n ∈ goal)
    (hmem : n ∈ members) {a : α} (ha : H n = some a) : s.hold n = some a := by
  obtain ⟨phase, -, hprogress⟩ := h.own
  cases hprogress with
  | waiting => exact ha
  | reading htodo hexact hcover => exact ha
  | aborted hfail => exact ha
  | writing hexact hall hplan hsub hhold hleft =>
    rcases hhold n with heq | ⟨w, hw, hnode, -⟩
    · rw [heq, ha]
    · exact absurd hnode (hplan.node_ne hn ⟨a, by rw [hall n hmem, ha]⟩ hw)

/-- Every copy was there before. -/
theorem exists_of_hold (h : Lone H old goal members succeeds i s) {n : N} {a : α}
    (ha : s.hold n = some a) : H n = some a ∨ ∃ m ∈ members, H m = some a := by
  obtain ⟨phase, -, hprogress⟩ := h.own
  generalize s.hold = hold at ha hprogress
  cases hprogress with
  | waiting => exact Or.inl ha
  | reading htodo hexact hcover => exact Or.inl ha
  | aborted hfail => exact Or.inl ha
  | writing hexact hall hplan hsub hhold hleft =>
    rcases hhold n with heq | ⟨w, hw, -, heq⟩
    · exact Or.inl (heq.symm.trans ha)
    · obtain ⟨m, hm⟩ := hplan.exists_of_value hw (heq.symm.trans ha)
      obtain ⟨hmem, hcopy⟩ := hexact m _ hm
      exact Or.inr ⟨m, hmem, hcopy.symm⟩

/-- A job that has planned without failures still has to erase the copies off the goal. -/
theorem mem_pending (h : Lone H old goal members succeeds i s) (hsucceeds : succeeds)
    (hmoves : Moves old goal) {job : Job N α} {goal' : Finset N} {pending : Set (Write N α)}
    (hi : s.jobs[i]? = some job) (hphase : job.phase = .writing goal' pending) {n : N}
    (hn : n ∈ members) (hoff : n ∉ goal) {a : α} (ha : H n = some a) :
    ⟨n, none⟩ ∈ pending ∨ s.hold n = none := by
  obtain ⟨phase, hi', hprogress⟩ := h.own
  obtain rfl := Option.some.inj (hi.symm.trans hi')
  change phase = _ at hphase
  rw [hphase] at hprogress
  generalize s.hold = hold at hprogress ⊢
  cases hprogress with
  | aborted hfail => exact absurd hsucceeds hfail
  | @writing seen plan _ _ hexact hall hplan hsub hhold hleft =>
    have hsees : Sees seen n := ⟨a, by rw [hall n hn, ha]⟩
    obtain ⟨w, hw, rfl⟩ := hplan.exists_write hmoves hsees hn
      ⟨fun h' => absurd h' hoff, fun h' => absurd hsees h'⟩
    obtain ⟨m, b, -, htoward⟩ := hplan.exists_toward hw
    have hvalue : w.value = none := (htoward w hw).trans (if_neg hoff)
    rw [← hvalue]
    exact hleft hsucceeds w hw

/-- What a job still has to store was on a member. -/
theorem exists_of_pending (h : Lone H old goal members succeeds i s) {j : ℕ} {job : Job N α}
    (hj : s.jobs[j]? = some job) {goal' : Finset N} {pending : Set (Write N α)}
    (hphase : job.phase = .writing goal' pending) {w : Write N α} (hw : w ∈ pending) {a : α}
    (ha : w.value = some a) : ∃ m ∈ members, H m = some a := by
  by_cases hji : j = i
  · obtain ⟨phase, hi, hprogress⟩ := h.own
    rw [hji] at hj
    obtain rfl := Option.some.inj (hj.symm.trans hi)
    change phase = _ at hphase
    rw [hphase] at hprogress
    generalize s.hold = hold at hprogress
    cases hprogress with
    | aborted hfail => exact absurd hw (Set.notMem_empty w)
    | writing hexact hall hplan hsub hhold hleft =>
      obtain ⟨m, hm⟩ := hplan.exists_of_value (hsub hw) ha
      obtain ⟨hmem, hcopy⟩ := hexact m _ hm
      exact ⟨m, hmem, hcopy.symm⟩
  · obtain ⟨goal'', hended⟩ := h.others j job hj hji
    rw [hended] at hphase
    obtain ⟨-, rfl⟩ := Phase.writing.inj hphase
    exact absurd hw (Set.notMem_empty w)

/-- Where the item does not move, or no member has a copy, nothing happens. -/
theorem hold_eq (h : Lone H old goal members succeeds i s)
    (hidle : Moves old goal → ∀ n ∈ members, H n = none) : s.hold = H := by
  obtain ⟨phase, -, hprogress⟩ := h.own
  generalize s.hold = hold at hprogress
  cases hprogress with
  | waiting => rfl
  | reading htodo hexact hcover => rfl
  | aborted hfail => rfl
  | @writing seen plan pending hold hexact hall hplan hsub hhold hleft =>
    have hempty : plan = ∅ := by
      refine hplan.eq_empty ?_
      rintro hmoves n ⟨a, hn⟩
      obtain ⟨hmem, ha⟩ := hexact n _ hn
      rw [hidle hmoves n hmem] at ha
      cases ha
    funext n
    rcases hhold n with heq | ⟨w, hw, -⟩
    · exact heq
    · rw [hempty] at hw
      exact absurd hw (Set.notMem_empty w)

/-- When a job plans, it has seen the copies of all members. -/
theorem seen_of_reading (h : Lone H old goal members succeeds i s) {j : ℕ} {old' goal' : Finset N}
    {seen : N → Option (Option α)} (hj : s.jobs[j]? = some ⟨old', .reading goal' [] seen⟩) :
    j = i ∧ ∀ n ∈ members, seen n = some (H n) := by
  obtain ⟨hji, -, hprogress⟩ := h.eq_of_phase hj (by simp)
  refine ⟨hji, ?_⟩
  generalize s.hold = hold at hprogress
  cases hprogress with
  | reading htodo hexact hcover => exact fun n hn => (hcover n hn).resolve_left List.not_mem_nil

/-- A job that reads is for the item, and has seen nothing but the copies of members. -/
theorem exact_of_reading (h : Lone H old goal members succeeds i s) {j : ℕ}
    {old' goal' : Finset N} {todo : List N} {seen : N → Option (Option α)}
    (hj : s.jobs[j]? = some ⟨old', .reading goal' todo seen⟩) :
    old' = old ∧ goal' = goal ∧ ∀ n x, seen n = some x → n ∈ members ∧ x = H n := by
  obtain ⟨-, hold, hprogress⟩ := h.eq_of_phase hj (by simp)
  refine ⟨hold, ?_⟩
  generalize s.hold = hold at hprogress
  cases hprogress with
  | reading htodo hexact hcover => exact ⟨rfl, hexact⟩

/-- When the job ends without failures, exactly the goal holds copies, and they are `a`, if goal
nodes that had a copy had this one, and nodes that had none got no other. -/
theorem settled_of_copies (h : Lone H old goal members succeeds i s) (hsucceeds : succeeds)
    (hended : ∀ job, s.jobs[i]? = some job → job.Ended) (hmoves : Moves old goal)
    (hheld : ∃ m ∈ members, H m ≠ none) {a : α}
    (hgoal : ∀ n ∈ members, n ∈ goal → H n = none ∨ H n = some a)
    (hcopies : ∀ n ∈ members, H n = none → s.hold n = none ∨ s.hold n = some a) {n : N}
    (hn : n ∈ members) : s.hold n = if n ∈ goal then some a else none := by
  obtain ⟨phase, hi, hprogress⟩ := h.own
  obtain ⟨goal', hphase⟩ := hended _ hi
  generalize s.hold = hold at hprogress hcopies ⊢
  change phase = _ at hphase
  rw [hphase] at hprogress
  cases hprogress with
  | aborted hfail => exact absurd hsucceeds hfail
  | @writing seen plan _ _ hexact hall hplan hsub hhold hleft =>
    have hsees : ∀ k ∈ members, Sees seen k ↔ H k ≠ none := by
      intro k hk
      rw [Sees, hall k hk, Option.ne_none_iff_exists']
      simp only [Option.some.injEq]
    obtain ⟨m, hm, hHm⟩ := hheld
    by_cases hdiff : n ∈ goal ↔ ¬Sees seen n
    · -- the node is written, and the write was not lost
      obtain ⟨w, hw, rfl⟩ := hplan.exists_write hmoves ((hsees m hm).mpr hHm) hn hdiff
      obtain ⟨k, b, -, htoward⟩ := hplan.exists_toward hw
      have hvalue := (hleft hsucceeds w hw).resolve_left (Set.notMem_empty w)
      rw [htoward w hw] at hvalue
      split_ifs at hvalue ⊢ with hmem
      · have hnone : H w.node = none :=
          not_not.mp fun hcopy => hdiff.mp hmem ((hsees _ hn).mpr hcopy)
        rcases hcopies _ hn hnone with heq | heq
        · rw [heq] at hvalue
          cases hvalue
        · exact heq
      · exact hvalue
    · have hnot : ∀ w ∈ plan, w.node ≠ n := by
        rintro w hw rfl
        cases hplan with
        | idle h => exact Set.notMem_empty w hw
        | move hmoves hseen => exact hdiff hw.2.2
      have hkeep : hold n = H n := by
        rcases hhold n with heq | ⟨w, hw, hnode, -⟩
        · exact heq
        · exact absurd hnode (hnot w hw)
      rw [hkeep]
      rw [hsees n hn, not_not] at hdiff
      split_ifs with hmem
      · exact (hgoal n hn hmem).resolve_left fun hnone =>
          hdiff ⟨fun _ => hnone, fun _ => hmem⟩
      · by_contra hcopy
        exact hdiff ⟨fun h' => absurd h' hmem, fun h' => absurd h' hcopy⟩

/-- When the job ends without failures, exactly the goal holds copies. -/
theorem settled (h : Lone H old goal members succeeds i s) (hsucceeds : succeeds)
    (hended : ∀ job, s.jobs[i]? = some job → job.Ended) (hmoves : Moves old goal) {a : α} {m : N}
    (hm : m ∈ members) (hHm : H m = some a)
    (hagree : ∀ n ∈ members, H n = none ∨ H n = some a) {n : N} (hn : n ∈ members) :
    s.hold n = if n ∈ goal then some a else none := by
  refine h.settled_of_copies hsucceeds hended hmoves ⟨m, hm, by simp [hHm]⟩
    (fun k hk _ => hagree k hk) (fun k hk hnone => ?_) hn
  cases hcopy : s.hold k with
  | none => exact Or.inl rfl
  | some b =>
    refine Or.inr ?_
    rcases h.exists_of_hold hcopy with heq | ⟨x, hx, heq⟩
    · rw [hnone] at heq
      cases heq
    · rcases hagree x hx with hx' | hx'
      · rw [hx'] at heq
        cases heq
      · exact heq.symm.trans hx'

/-- When the job ends without failures, exactly the goal holds the item, if it was where it was
before the job, or on a goal node with the same copy. -/
theorem exact_goal (h : Lone H old goal members succeeds i s) (hsucceeds : succeeds)
    (hended : ∀ job, s.jobs[i]? = some job → job.Ended) (hgoal : goal.Nonempty) {a : α}
    (hH : ∀ n ∈ members, H n = (if n ∈ old then some a else none) ∨ n ∈ goal ∧ H n = some a)
    {m : N} (hm : m ∈ members) (hold : m ∈ old) {n : N} (hn : n ∈ members) :
    s.hold n = if n ∈ goal then some a else none := by
  by_cases hsame : old = goal
  · rw [congrFun (h.hold_eq fun hmoves => absurd hsame hmoves.2.2) n]
    rcases hH n hn with heq | ⟨hmem, heq⟩
    · rw [heq, hsame]
    · rw [heq, if_pos hmem]
  · have hcopy : H m = some a := by
      rcases hH m hm with heq | ⟨-, heq⟩
      · rw [heq, if_pos hold]
      · exact heq
    refine h.settled hsucceeds hended ⟨⟨m, hold⟩, hgoal, hsame⟩ hm hcopy (fun k hk => ?_) hn
    rcases hH k hk with heq | ⟨-, heq⟩
    · rw [heq]
      split_ifs
      · exact Or.inr rfl
      · exact Or.inl rfl
    · exact Or.inr heq

end Lone

end Relocation

end Library
