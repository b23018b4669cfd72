import DistributedCache.Library.Relocation

/-!
# Several jobs that move one item

Nodes join one after another, and each time a job is submitted. As long as a job begins only when
no other one is still moving the item to another goal, all jobs at work write toward one target
with one copy; the first of them that plans has seen the copies as they are and has a write for
every node that is not at the target. So the item ends up on the goal when all jobs have ended,
whatever was submitted in between.

## Main definitions

* `Relocation.Job.MovesTo` : a job moves the item to a target, if it moves it at all.
* `Relocation.Exact` : the members that hold the item are exactly some nodes.
* `Relocation.Overlap` : the invariant of jobs that overlap.

## Main results

* `Relocation.Overlap.step`, `Relocation.Overlap.join` : the steps keep the invariant.
* `Relocation.Overlap.exact_goal` : when all jobs have ended, exactly the goal holds the item.
-/

namespace Library

namespace Relocation

variable {N α : Type*}

/-- The jobs after the phase of one of them changed. -/
theorem State.getElem?_setPhase {s : State N α} {i j : ℕ} {old : Finset N} {phase : Phase N α}
    {job' : Job N α} (h : (s.setPhase i old phase).jobs[j]? = some job') :
    j = i ∧ job' = ⟨old, phase⟩ ∨ j ≠ i ∧ s.jobs[j]? = some job' := by
  change (s.jobs.set i _)[j]? = some job' at h
  rw [List.getElem?_set] at h
  split_ifs at h with hij hlt
  · exact Or.inl ⟨hij.symm, (Option.some.inj h).symm⟩
  · exact Or.inr ⟨fun hji => hij hji.symm, h⟩

theorem State.getElem?_setPhase_of_ne {s : State N α} {i j : ℕ} (h : j ≠ i) (old : Finset N)
    (phase : Phase N α) : (s.setPhase i old phase).jobs[j]? = s.jobs[j]? := by
  change (s.jobs.set i _)[j]? = _
  rw [List.getElem?_set_ne (Ne.symm h)]

theorem State.getElem?_setPhase_self {s : State N α} {i : ℕ} {job : Job N α}
    (h : s.jobs[i]? = some job) (old : Finset N) (phase : Phase N α) :
    (s.setPhase i old phase).jobs[i]? = some ⟨old, phase⟩ :=
  List.getElem?_set_self (List.getElem?_eq_some_iff.mp h).1

namespace Job

/-- The job moves the item to the target, if it moves the item at all. -/
def MovesTo (target : Finset N) (job : Job N α) : Prop :=
  match job.phase with
  | .waiting => True
  | .reading goal _ _ => Moves job.old goal → goal = target
  | .writing goal pending => pending.Nonempty → goal = target

/-- The job has not planned yet, and moves the item from its old place, if that has changed. -/
def MayMove (job : Job N α) : Prop :=
  match job.phase with
  | .waiting => True
  | .reading goal _ _ => Moves job.old goal
  | .writing _ _ => False

/-- The job has nothing to write, and has read how things are if it moves the item. Nodes off
the target that joined meanwhile and hold nothing need not be read. -/
def Untouched (target : Finset N) (s : State N α) (job : Job N α) : Prop :=
  match job.phase with
  | .waiting => True
  | .reading goal todo seen => Moves job.old goal →
      ∀ n ∈ s.members, n ∈ todo ∨ seen n = some (s.hold n) ∨ (n ∉ target ∧ s.hold n = none)
  | .writing _ pending => pending = ∅

/-- A job that moves the item moves it to one place. -/
theorem MovesTo.eq_of_ne {target target' : Finset N} {job : Job N α}
    (h : job.MovesTo target) (h' : job.MovesTo target') (hne : target ≠ target')
    (s : State N α) : job.Untouched target' s ∧ (job.MayMove → job.phase = .waiting) := by
  obtain ⟨old, phase⟩ := job
  cases phase with
  | waiting => exact ⟨trivial, fun _ => rfl⟩
  | reading goal todo seen =>
    have hidle : ¬Moves old goal := fun hmoves => hne ((h hmoves).symm.trans (h' hmoves))
    exact ⟨fun hmoves => absurd hmoves hidle, fun hmoves => absurd hmoves hidle⟩
  | writing goal pending =>
    refine ⟨?_, False.elim⟩
    by_contra hpending
    have hnonempty := Set.nonempty_iff_ne_empty.mpr hpending
    exact hne ((h hnonempty).symm.trans (h' hnonempty))

variable [DecidableEq N]

/-- The job is about members, has seen no copy other than `a`, and writes toward the target. -/
def Fits (a : α) (target : Finset N) (s : State N α) (job : Job N α) : Prop :=
  match job.phase with
  | .waiting => job.old.Nonempty ∧ ∀ n ∈ job.old, n ∈ s.members
  | .reading goal todo seen => (Moves job.old goal → goal = target) ∧ todo ⊆ s.members ∧
      ∀ n b, seen n = some (some b) → b = a
  | .writing goal pending => (pending.Nonempty → goal = target) ∧ ∀ w ∈ pending, w.Toward target a

end Job

variable [DecidableEq N]

/-- The members that hold the item are those in `nodes`, and they hold the copy `a`. -/
def Exact (nodes : Finset N) (a : α) (s : State N α) : Prop :=
  ∀ n ∈ s.members, s.hold n = if n ∈ nodes then some a else none

/-- How far the item is on its way to the target: it is there, or some job has a write for every
node that is not, or nobody has planned to move it from where it is. -/
inductive Stage (a : α) (target : Finset N) (s : State N α) : Prop
  | settled (h : Exact target a s)
  | moving {j : ℕ} {old goal : Finset N} {pending : Set (Write N α)}
      (hj : s.jobs[j]? = some ⟨old, .writing goal pending⟩)
      (hleft : ∀ n ∈ s.members, s.hold n = (if n ∈ target then some a else none) ∨
        ∃ w ∈ pending, w.node = n)
  | untouched {nodes : Finset N} {j : ℕ} {job : Job N α} (hexact : Exact nodes a s)
      (hnodes : ∀ n ∈ nodes, n ∈ s.members) (hnonempty : nodes.Nonempty)
      (hj : s.jobs[j]? = some job) (hold : job.old = nodes) (hmay : job.MayMove)
      (huntouched : ∀ (i : ℕ) (job : Job N α), s.jobs[i]? = some job → job.Untouched target s)

/-- All jobs at work move the copy `a` to the target, which is the goal of the jobs that begin
now or the old place of a job that waits. -/
structure Overlap (a : α) (target : Finset N) (s : State N α) : Prop where
  goal_mem : ∀ n ∈ s.goal, n ∈ s.members
  goal_nonempty : s.goal.Nonempty
  target_mem : ∀ n ∈ target, n ∈ s.members
  fits : ∀ (i : ℕ) (job : Job N α), s.jobs[i]? = some job → job.Fits a target s
  agree : ∀ n ∈ s.members, s.hold n = none ∨ s.hold n = some a
  next : target = s.goal ∨ ∃ i : ℕ, s.jobs[i]? = some ⟨target, .waiting⟩
  stage : Stage a target s

theorem Job.Fits.movesTo {a : α} {target : Finset N} {s : State N α} {job : Job N α}
    (h : job.Fits a target s) : job.MovesTo target := by
  obtain ⟨old, phase⟩ := job
  cases phase with
  | waiting => trivial
  | reading goal todo seen => exact h.1
  | writing goal pending => exact h.1

namespace Overlap

variable {a : α} {target : Finset N} {s s' : State N α} {i : ℕ} {job : Job N α}

/-- When no job moves the item elsewhere, the goal of the jobs that begin now is the target. -/
private theorem retarget (h : Overlap a target s)
    (hjobs : ∀ (i : ℕ) (job : Job N α), s.jobs[i]? = some job → job.MovesTo s.goal) :
    Overlap a s.goal s := by
  by_cases heq : target = s.goal
  · exact heq ▸ h
  -- no job is at work on the item, for it would have to move it to both places
  have hidle : ∀ (i : ℕ) (job : Job N α), s.jobs[i]? = some job → job.Untouched s.goal s :=
    fun i job hi => ((h.fits i job hi).movesTo.eq_of_ne (hjobs i job hi) heq s).1
  have hstay : Exact target a s → Stage a s.goal s := by
    intro hexact
    obtain ⟨i, hi⟩ := h.next.resolve_left heq
    exact .untouched hexact h.target_mem (h.fits i _ hi).1 hi rfl trivial hidle
  refine ⟨h.goal_mem, h.goal_nonempty, h.goal_mem, fun i job hi => ?_, h.agree, Or.inl rfl, ?_⟩
  · have hfits := h.fits i job hi
    have hmoves := hjobs i job hi
    have huntouched := hidle i job hi
    obtain ⟨old, phase⟩ := job
    cases phase with
    | waiting => exact hfits
    | reading goal todo seen => exact ⟨hmoves, hfits.2⟩
    | writing goal pending =>
      change pending = ∅ at huntouched
      subst huntouched
      exact ⟨hmoves, fun w hw => absurd hw (Set.notMem_empty w)⟩
  · cases h.stage with
    | settled hexact => exact hstay hexact
    | @moving j old goal pending hj hleft =>
      have hempty : pending = ∅ := hidle j _ hj
      subst hempty
      refine hstay fun n hn => (hleft n hn).resolve_right ?_
      rintro ⟨w, hw, -⟩
      exact hw
    | untouched hexact hnodes hnonempty hj hold hmay huntouched =>
      exact .untouched hexact hnodes hnonempty hj hold hmay hidle

/-- One job goes on, without writing. Where nobody has planned yet, it has read how things are
and still may move the item, or the item is at another stage now. -/
private theorem setPhase (h : Overlap a target s) {old : Finset N} {phase phase' : Phase N α}
    (hi : s.jobs[i]? = some ⟨old, phase⟩) (hwriting : ∀ goal pending, phase ≠ .writing goal pending)
    (hnext : target = s.goal ∨ phase ≠ .waiting) (hfits : Job.Fits a target s ⟨old, phase'⟩)
    (hstage : ∀ nodes, Exact nodes a s → (∀ n ∈ nodes, n ∈ s.members) → nodes.Nonempty →
      Job.Untouched target s ⟨old, phase⟩ →
      Stage a target (s.setPhase i old phase') ∨ Job.Untouched target s ⟨old, phase'⟩ ∧
        (old = nodes → Job.MayMove ⟨old, phase⟩ → Job.MayMove ⟨old, phase'⟩)) :
    Overlap a target (s.setPhase i old phase') := by
  refine ⟨h.goal_mem, h.goal_nonempty, h.target_mem, fun j job hj => ?_, h.agree, ?_, ?_⟩
  · obtain ⟨-, rfl⟩ | ⟨-, hj⟩ := State.getElem?_setPhase hj
    · exact hfits
    · exact h.fits j job hj
  · rcases hnext with heq | hwaiting
    · exact Or.inl heq
    · refine h.next.imp_right ?_
      rintro ⟨j, hj⟩
      refine ⟨j, ?_⟩
      have hne : j ≠ i := by
        rintro rfl
        rw [hi] at hj
        exact hwaiting (Job.mk.inj (Option.some.inj hj)).2
      rw [State.getElem?_setPhase_of_ne hne]
      exact hj
  · cases h.stage with
    | settled hexact => exact .settled hexact
    | @moving j old' goal pending hj hleft =>
      have hne : j ≠ i := by
        rintro rfl
        rw [hi] at hj
        exact hwriting goal pending (Job.mk.inj (Option.some.inj hj)).2
      exact .moving (by rw [State.getElem?_setPhase_of_ne hne]; exact hj) hleft
    | @untouched nodes j job hexact hnodes hnonempty hj hold hmay huntouched =>
      refine (hstage nodes hexact hnodes hnonempty (huntouched i _ hi)).elim id ?_
      rintro ⟨huntouched', hmay'⟩
      have hall : ∀ (k : ℕ) (job : Job N α), (s.setPhase i old phase').jobs[k]? = some job →
          job.Untouched target (s.setPhase i old phase') := by
        intro k job hk
        obtain ⟨-, rfl⟩ | ⟨-, hk⟩ := State.getElem?_setPhase hk
        · exact huntouched'
        · exact huntouched k job hk
      by_cases hji : j = i
      · subst hji
        obtain rfl := Option.some.inj (hj.symm.trans hi)
        exact .untouched hexact hnodes hnonempty (State.getElem?_setPhase_self hi _ _) hold
          (hmay' hold hmay) hall
      · rw [← State.getElem?_setPhase_of_ne hji] at hj
        exact .untouched hexact hnodes hnonempty hj hold hmay hall

private theorem begin (h : Overlap a s.goal s) {old : Finset N}
    (hi : s.jobs[i]? = some ⟨old, .waiting⟩) :
    Overlap a s.goal (s.setPhase i old (.reading s.goal s.members fun _ => none)) := by
  refine h.setPhase hi (by simp) (Or.inl rfl)
    ⟨fun _ => rfl, List.Subset.refl _, fun n b hn => by cases hn⟩
    fun nodes hexact _ hnonempty _ => ?_
  by_cases hsame : old = nodes ∧ nodes = s.goal
  · obtain ⟨-, rfl⟩ := hsame
    exact Or.inl (.settled hexact)
  · refine Or.inr ⟨fun _ n hn => Or.inl hn, fun hold _ => ?_⟩
    exact ⟨hold ▸ hnonempty, h.goal_nonempty, fun heq => hsame ⟨hold, hold ▸ heq⟩⟩

private theorem read (h : Overlap a target s) {old goal : Finset N} {n : N} {todo : List N}
    {seen : N → Option (Option α)}
    (hi : s.jobs[i]? = some ⟨old, .reading goal (n :: todo) seen⟩) : Overlap a target
      (s.setPhase i old (.reading goal todo (Function.update seen n (some (s.hold n))))) := by
  obtain ⟨hgoal, htodo, hseen⟩ := h.fits i _ hi
  refine h.setPhase hi (by simp) (Or.inr (by simp))
    ⟨hgoal, fun m hm => htodo (List.mem_cons_of_mem n hm), fun m b hm => ?_⟩
    fun nodes _ _ _ huntouched => Or.inr ⟨fun hmoves m hm => ?_, fun _ hmay => hmay⟩
  · by_cases hmn : m = n
    · rw [hmn, Function.update_self] at hm
      rcases h.agree n (htodo List.mem_cons_self) with hnone | hsome
      · rw [hnone] at hm
        cases hm
      · rw [hsome] at hm
        exact (Option.some.inj (Option.some.inj hm)).symm
    · rw [Function.update_of_ne hmn] at hm
      exact hseen m b hm
  · by_cases hmn : m = n
    · exact Or.inr (Or.inl (by rw [hmn, Function.update_self]))
    · rw [Function.update_of_ne hmn]
      refine (huntouched hmoves m hm).imp_left fun hmem => ?_
      exact (List.mem_cons.mp hmem).resolve_left hmn

/-- The first job that plans has a write for every node that is not at the target. -/
private theorem plan (h : Overlap a target s) {old goal : Finset N}
    {seen : N → Option (Option α)} {pending : Set (Write N α)}
    (hi : s.jobs[i]? = some ⟨old, .reading goal [] seen⟩)
    (hplan : Plans old goal s.members seen pending) :
    Overlap a target (s.setPhase i old (.writing goal pending)) := by
  obtain ⟨hgoal, -, hseen⟩ := h.fits i _ hi
  have hmoves : pending.Nonempty → Moves old goal := by
    rintro ⟨w, hw⟩
    by_contra hidle
    rw [hplan.eq_empty fun hmoves => absurd hmoves hidle] at hw
    exact hw
  refine h.setPhase hi (by simp) (Or.inr (by simp)) ⟨fun hpending => hgoal (hmoves hpending),
    fun w hw => ?_⟩ fun nodes hexact hnodes hnonempty huntouched => ?_
  · obtain ⟨n, b, hn, htoward⟩ := hplan.exists_toward hw
    rw [← hgoal (hmoves ⟨w, hw⟩), ← hseen n b hn]
    exact htoward w hw
  · by_cases hmove : Moves old goal
    · have hread := huntouched hmove
      obtain rfl := hgoal hmove
      obtain ⟨m, hm⟩ := hnonempty
      have hhold : s.hold m = some a := by rw [hexact m (hnodes m hm), if_pos hm]
      have hsees : Sees seen m := by
        rcases hread m (hnodes m hm) with hnil | hseen | ⟨-, hnone⟩
        · cases hnil
        · exact ⟨a, by rw [hseen, hhold]⟩
        · rw [hnone] at hhold
          cases hhold
      refine Or.inl (.moving (State.getElem?_setPhase_self hi _ _) fun n hn => ?_)
      change s.hold n = _ ∨ _
      rcases hread n hn with hnil | hseen | ⟨hoff, hnone⟩
      · cases hnil
      · by_cases hdiff : n ∈ goal ↔ ¬Sees seen n
        · exact Or.inr (hplan.exists_write hmove hsees hn hdiff)
        · refine Or.inl ?_
          rcases h.agree n hn with hnone | hsome
          · have hnot : ¬Sees seen n := by
              rintro ⟨b, hb⟩
              rw [hseen, hnone] at hb
              cases hb
            rw [hnone, if_neg fun hmem => hdiff ⟨fun _ => hnot, fun _ => hmem⟩]
          · have hsees' : Sees seen n := ⟨a, by rw [hseen, hsome]⟩
            rw [hsome, if_pos]
            by_contra hoff
            exact hdiff ⟨fun hmem => absurd hmem hoff, fun hnot => absurd hsees' hnot⟩
      · exact Or.inl (by rw [hnone, if_neg hoff])
    · have hempty := hplan.eq_empty fun hmoves => absurd hmoves hmove
      exact Or.inr ⟨hempty, fun _ hmay => absurd hmay hmove⟩

/-- A write toward the target takes effect. -/
private theorem perform (h : Overlap a target s) {old goal : Finset N}
    {pending pending' : Set (Write N α)} {w : Write N α}
    (hi : s.jobs[i]? = some ⟨old, .writing goal pending⟩) (hw : w ∈ pending)
    (hsub : pending' ⊆ pending) (hrest : ∀ w' ∈ pending, w' = w ∨ w' ∈ pending') :
    Overlap a target ((s.write w).setPhase i old (.writing goal pending')) := by
  obtain ⟨hgoal, htoward⟩ := h.fits i _ hi
  have hvalue : w.value = if w.node ∈ target then some a else none := htoward w hw
  have hhold : ∀ n, (s.write w).hold n = (if n ∈ target then some a else none) ∨
      n ≠ w.node ∧ (s.write w).hold n = s.hold n := by
    intro n
    change Function.update s.hold w.node w.value n = _ ∨ _ ∧ Function.update _ _ _ n = _
    by_cases hn : n = w.node
    · exact Or.inl (by rw [hn, Function.update_self, hvalue])
    · exact Or.inr ⟨hn, Function.update_of_ne hn _ _⟩
  have hi' : (s.write w).jobs[i]? = some ⟨old, .writing goal pending⟩ := hi
  refine ⟨h.goal_mem, h.goal_nonempty, h.target_mem, fun j job hj => ?_, fun n hn => ?_, ?_, ?_⟩
  · obtain ⟨-, rfl⟩ | ⟨-, hj⟩ := State.getElem?_setPhase hj
    · exact ⟨fun hpending => hgoal (hpending.mono hsub), fun w' hw' => htoward w' (hsub hw')⟩
    · exact h.fits j job hj
  · change (s.write w).hold n = none ∨ (s.write w).hold n = some a
    rcases hhold n with heq | ⟨-, heq⟩
    · rw [heq]
      split_ifs
      · exact Or.inr rfl
      · exact Or.inl rfl
    · rw [heq]
      exact h.agree n hn
  · refine h.next.imp_right ?_
    rintro ⟨j, hj⟩
    refine ⟨j, ?_⟩
    have hne : j ≠ i := by
      rintro rfl
      rw [hi] at hj
      cases hj
    rw [State.getElem?_setPhase_of_ne hne]
    exact hj
  · cases h.stage with
    | settled hexact =>
      refine .settled fun n hn => ?_
      rcases hhold n with heq | ⟨-, heq⟩
      · exact heq
      · exact heq.trans (hexact n hn)
    | @moving j old' goal' pending'' hj hleft =>
      have hleft' : ∀ n ∈ s.members, (s.write w).hold n = (if n ∈ target then some a else none) ∨
          n ≠ w.node ∧ ∃ w' ∈ pending'', w'.node = n := by
        intro n hn
        rcases hhold n with heq | ⟨hne, heq⟩
        · exact Or.inl heq
        · rw [heq]
          exact (hleft n hn).imp_right fun hex => ⟨hne, hex⟩
      by_cases hji : j = i
      · subst hji
        obtain ⟨rfl, rfl⟩ : goal' = goal ∧ pending'' = pending := by
          have heq := Option.some.inj (hj.symm.trans hi)
          exact Phase.writing.inj (Job.mk.inj heq).2
        refine .moving (State.getElem?_setPhase_self hi' _ _) fun n hn => ?_
        refine (hleft' n hn).imp_right ?_
        rintro ⟨hne, w', hw', hnode⟩
        refine ⟨w', ?_, hnode⟩
        exact (hrest w' hw').resolve_left fun heq => hne (by rw [← hnode, heq])
      · exact .moving (by rw [State.getElem?_setPhase_of_ne hji]; exact hj) fun n hn =>
          (hleft' n hn).imp_right And.right
    | untouched hexact hnodes hnonempty hj hold hmay huntouched =>
      have hempty : pending = ∅ := huntouched i _ hi
      rw [hempty] at hw
      exact absurd hw (Set.notMem_empty w)

/-- A step of a job. A job begins only when no other job moves the item elsewhere. -/
theorem step (h : Overlap a target s) {act : Action N α} (hstep : Step s act s')
    (hjob : act.OfJob) (hsucceeds : act.Succeeds)
    (hbegin : ∀ i, act = .begin i → ∀ (j : ℕ) (job : Job N α), s.jobs[j]? = some job →
      job.MovesTo s.goal) : ∃ target', Overlap a target' s' := by
  cases hstep with
  | begin hi => exact ⟨s.goal, (h.retarget (hbegin _ rfl)).begin hi⟩
  | read hi => exact ⟨target, h.read hi⟩
  | abort hi => exact hsucceeds.elim
  | plan hi hplan => exact ⟨target, h.plan hi hplan⟩
  | perform hi hw hsub hrest => exact ⟨target, h.perform hi hw hsub hrest⟩
  | skip hi hw hsub => exact hsucceeds.elim
  | store w => exact hjob.elim
  | join hsub hhold => exact hjob.elim

/-- What the members hold after nodes joined that hold nothing, off any of the old members. -/
private theorem hold_join {members : List N} {hold : N → Option α}
    (hhold : ∀ n ∈ members, hold n = if n ∈ s.members then s.hold n else none)
    {nodes : Finset N} (hnodes : ∀ n ∈ nodes, n ∈ s.members) {n : N} (hn : n ∈ members) :
    n ∈ s.members ∧ hold n = s.hold n ∨ n ∉ nodes ∧ hold n = none := by
  by_cases hmem : n ∈ s.members
  · exact Or.inl ⟨hmem, by rw [hhold n hn, if_pos hmem]⟩
  · exact Or.inr ⟨fun h' => hmem (hnodes n h'), by rw [hhold n hn, if_neg hmem]⟩

private theorem fits_join (h : Job.Fits a target s job) {members : List N} {goal : Finset N}
    {hold : N → Option α} {jobs : List (Job N α)} (hsub : s.members ⊆ members) :
    job.Fits a target ⟨members, goal, hold, jobs⟩ := by
  obtain ⟨old, phase⟩ := job
  cases phase with
  | waiting => exact ⟨h.1, fun n hn => hsub (h.2 n hn)⟩
  | reading goal todo seen => exact ⟨h.1, fun n hn => hsub (h.2.1 hn), h.2.2⟩
  | writing goal pending => exact h

private theorem untouched_join (h : Job.Untouched target s job) {members : List N}
    {goal : Finset N} {hold : N → Option α} {jobs : List (Job N α)}
    (hhold : ∀ n ∈ members, hold n = if n ∈ s.members then s.hold n else none)
    (htarget : ∀ n ∈ target, n ∈ s.members) :
    job.Untouched target ⟨members, goal, hold, jobs⟩ := by
  obtain ⟨old, phase⟩ := job
  cases phase with
  | waiting => trivial
  | writing goal pending => exact h
  | reading goal todo seen =>
    intro hmoves n hn
    rcases hold_join hhold htarget hn with ⟨hmem, heq⟩ | ⟨hoff, heq⟩
    · change _ ∨ seen n = some (hold n) ∨ _ ∧ hold n = none
      rw [heq]
      exact h hmoves n hmem
    · exact Or.inr (Or.inr ⟨hoff, heq⟩)

/-- Nodes join that hold nothing. -/
theorem join (h : Overlap a target s) (hstep : Step s .join s')
    (hgoal : ∀ n ∈ s'.goal, n ∈ s'.members) (hnonempty : s'.goal.Nonempty) :
    Overlap a target s' := by
  cases hstep with
  | @join members goal hold hsub hhold =>
    have hjobs : ∀ {j : ℕ} {job : Job N α},
        (s.jobs ++ [⟨s.goal, .waiting⟩])[j]? = some job →
          job = ⟨s.goal, .waiting⟩ ∨ s.jobs[j]? = some job := by
      intro j job hj
      rcases lt_or_ge j s.jobs.length with hlt | hge
      · rw [List.getElem?_append_left hlt] at hj
        exact Or.inr hj
      · rw [List.getElem?_append_right hge] at hj
        exact Or.inl (List.mem_singleton.mp (List.mem_of_getElem? hj))
    have hkept : ∀ {j : ℕ} {job : Job N α}, s.jobs[j]? = some job →
        (s.jobs ++ [⟨s.goal, .waiting⟩])[j]? = some job := by
      intro j job hj
      rw [List.getElem?_append_left (List.getElem?_eq_some_iff.mp hj).1]
      exact hj
    have hexact : ∀ {nodes : Finset N}, (∀ n ∈ nodes, n ∈ s.members) → Exact nodes a s →
        Exact nodes a ⟨members, goal, hold, s.jobs ++ [⟨s.goal, .waiting⟩]⟩ := by
      intro nodes hnodes hex n hn
      rcases hold_join hhold hnodes hn with ⟨hmem, heq⟩ | ⟨hoff, heq⟩
      · exact heq.trans (hex n hmem)
      · exact heq.trans (if_neg hoff).symm
    refine ⟨hgoal, hnonempty, fun n hn => hsub (h.target_mem n hn), fun j job hj => ?_,
      fun n hn => ?_, Or.inr ?_, ?_⟩
    · rcases hjobs hj with rfl | hj
      · exact ⟨h.goal_nonempty, fun n hn => hsub (h.goal_mem n hn)⟩
      · exact fits_join (h.fits j job hj) hsub
    · rcases hold_join hhold h.target_mem hn with ⟨hmem, heq⟩ | ⟨-, heq⟩
      · change hold n = none ∨ hold n = some a
        rw [heq]
        exact h.agree n hmem
      · exact Or.inl heq
    · rcases h.next with rfl | ⟨j, hj⟩
      · exact ⟨s.jobs.length, List.getElem?_concat_length⟩
      · exact ⟨j, hkept hj⟩
    · cases h.stage with
      | settled hex => exact .settled (hexact h.target_mem hex)
      | moving hj hleft =>
        refine .moving (hkept hj) fun n hn => ?_
        rcases hold_join hhold h.target_mem hn with ⟨hmem, heq⟩ | ⟨hoff, heq⟩
        · change hold n = _ ∨ _
          rw [heq]
          exact hleft n hmem
        · exact Or.inl (heq.trans (if_neg hoff).symm)
      | untouched hex hnodes hne hj hold' hmay huntouched =>
        refine .untouched (hexact hnodes hex) (fun n hn => hsub (hnodes n hn)) hne (hkept hj) hold'
          hmay fun k job hk => ?_
        rcases hjobs hk with rfl | hk
        · trivial
        · exact untouched_join (huntouched k job hk) hhold h.target_mem

/-- An item that is where it belongs, when no job is at work. -/
theorem of_exact (hgoal : ∀ n ∈ s.goal, n ∈ s.members) (hnonempty : s.goal.Nonempty)
    (hended : ∀ (j : ℕ) (job : Job N α), s.jobs[j]? = some job → job.Ended)
    (hexact : Exact s.goal a s) : Overlap a s.goal s := by
  refine ⟨hgoal, hnonempty, hgoal, fun j job hj => ?_, fun n hn => ?_, Or.inl rfl, .settled hexact⟩
  · obtain ⟨goal, hphase⟩ := hended j job hj
    rw [Job.Fits, hphase]
    exact ⟨fun hw => absurd hw Set.not_nonempty_empty, fun w hw => absurd hw (Set.notMem_empty w)⟩
  · rw [hexact n hn]
    split_ifs
    · exact Or.inr rfl
    · exact Or.inl rfl

/-- When all jobs have ended, exactly the goal holds the item. -/
theorem exact_goal (h : Overlap a target s)
    (hended : ∀ (j : ℕ) (job : Job N α), s.jobs[j]? = some job → job.Ended) :
    Exact s.goal a s := by
  have hphase : ∀ {j : ℕ} {old : Finset N} {phase : Phase N α},
      s.jobs[j]? = some ⟨old, phase⟩ → ∃ goal, phase = .writing goal ∅ := fun hj => hended _ _ hj
  have htarget : target = s.goal := by
    refine h.next.resolve_right ?_
    rintro ⟨j, hj⟩
    obtain ⟨goal, heq⟩ := hphase hj
    cases heq
  rw [← htarget]
  cases h.stage with
  | settled hexact => exact hexact
  | moving hj hleft =>
    obtain ⟨goal, heq⟩ := hphase hj
    rw [(Phase.writing.inj heq).2] at hleft
    refine fun n hn => (hleft n hn).resolve_right ?_
    rintro ⟨w, hw, -⟩
    exact hw
  | @untouched nodes j job hexact hnodes hne hj hold hmay huntouched =>
    obtain ⟨old, phase⟩ := job
    obtain ⟨goal, rfl⟩ := hphase hj
    exact hmay.elim

end Overlap

end Relocation

end Library
