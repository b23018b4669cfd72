import DistributedCache.Cluster.Background
import DistributedCache.Library.Draining
import Mathlib.Data.Prod.Lex

/-!
# The background loop comes to an end

Once the clients are silent, the background loop finishes what was submitted, whatever fails. A
rebalance reads finitely many snapshots, plans once and makes finitely many calls, and nothing that
the loop does submits work. The planner is the one step after which there may be more calls to
make than before, so the calls come last in the measure.

## Main definitions

* `BackgroundStep.Works` : all steps but the cleanups of the stores.
* `DistributedCacheCluster.workLeft` : the measure of what is left to do.

## Main results

* `DistributedCacheCluster.exists_work` : while something is left to do the loop can go on.
* `DistributedCacheCluster.background_loop_drains` : at last nothing is left.
-/

namespace DistributedCache

open Library

variable {V : Type*} {hashToInt : String → ℕ}

/-- The step is not a cleanup pass of a store, which goes on for ever. -/
def BackgroundStep.Works : BackgroundStep → Prop
  | .cleanup _ _ => False
  | _ => True

instance : DecidablePred BackgroundStep.Works
  | .cleanup _ _ => isFalse id
  | .replicate _ _ _ | .begin _ | .snapshot _ _ _ | .plan _ _ _ | .migrate _ _ _ _ => isTrue trivial

namespace RebalancePhase

/-- The rebalances that have not begun. -/
def unbegun : RebalancePhase V → ℕ
  | .submitted => 1
  | _ => 0

/-- The snapshots to be read, and the planning. -/
def unread : RebalancePhase V → ℕ
  | .collecting _ todo _ => todo.length + 1
  | _ => 0

/-- The calls to be made. -/
def unwritten : RebalancePhase V → ℕ
  | .migrating _ pending => pending.length
  | _ => 0

end RebalancePhase

namespace DistributedCacheCluster

variable {c c' : DistributedCacheCluster V} {s : BackgroundStep}

/-- The sum over the rebalances. -/
def total (c : DistributedCacheCluster V) (μ : RebalancePhase V → ℕ) : ℕ :=
  (c.rebalances.map fun task => μ task.phase).sum

/-- What is left to do: rebalances to begin, snapshots to read, calls to make. -/
def workLeft (c : DistributedCacheCluster V) : ℕ ×ₗ ℕ ×ₗ ℕ :=
  toLex (c.total RebalancePhase.unbegun, toLex (c.total RebalancePhase.unread,
    c.total RebalancePhase.unwritten + c.replicaWrites.length))

/-- The phase of one rebalance changes, whatever happens to the nodes. -/
private theorem total_setPhase {index : ℕ} {task : RebalanceTask V} {old : RebalancePhase V}
    (htask : c.rebalances[index]? = some task) (hold : task.phase = old)
    (t : NodeTransport V) (phase : RebalancePhase V) (μ : RebalancePhase V → ℕ) :
    ({ c with transport := t }.setPhase index task phase).total μ + μ old =
      c.total μ + μ phase := by
  rw [← hold]
  exact sum_map_set htask (fun task => μ task.phase) { task with phase := phase }

/-- Every step but a cleanup leaves less to do. -/
theorem workLeft_lt (h : c.runBackground hashToInt s = some c') (hs : s.Works) :
    c'.workLeft < c.workLeft := by
  rw [workLeft, workLeft, Prod.Lex.toLex_lt_toLex, Prod.Lex.toLex_lt_toLex]
  cases s with
  | replicate index clock outcome =>
    obtain ⟨w, hw, rfl⟩ := runBackground_replicate h
    have hlength := List.length_eraseIdx_add_one (List.getElem?_eq_some_iff.mp hw).1
    refine Or.inr ⟨rfl, Or.inr ⟨rfl, ?_⟩⟩
    change c.total _ + (c.replicaWrites.eraseIdx index).length <
      c.total _ + c.replicaWrites.length
    omega
  | begin index =>
    obtain ⟨task, htask, hphase, rfl⟩ := runBackground_begin h
    exact Or.inl (Nat.lt_of_add_one_le (total_setPhase htask hphase c.transport _ _).le)
  | snapshot index now outcome =>
    obtain ⟨task, ring, node, todo, snapshots, htask, hphase, hs⟩ := runBackground_snapshot h
    have hset := total_setPhase htask hphase
    rcases hs with ⟨-, rfl⟩ | ⟨entries, transport, -, rfl⟩
    · have hunread := hset c.transport (.migrating ring []) RebalancePhase.unread
      refine Or.inr ⟨hset c.transport _ RebalancePhase.unbegun, Or.inl ?_⟩
      exact Nat.lt_of_lt_of_eq (Nat.lt_add_of_pos_right (Nat.succ_pos _)) hunread
    · have hunread := hset transport (.collecting ring todo (snapshots.set node.nodeId entries))
        RebalancePhase.unread
      refine Or.inr ⟨hset transport _ RebalancePhase.unbegun, Or.inl ?_⟩
      simp only [RebalancePhase.unread, List.length_cons] at hunread
      omega
  | plan index now clock =>
    obtain ⟨task, ring, snapshots, htask, hphase, rfl⟩ := runBackground_plan h
    have hset := total_setPhase htask hphase c.transport
    refine Or.inr ⟨hset _ RebalancePhase.unbegun, Or.inl ?_⟩
    exact Nat.lt_of_add_one_le (hset _ RebalancePhase.unread).le
  | migrate index i clock outcome =>
    obtain ⟨task, ring, pending, call, htask, hphase, hcall, rfl⟩ := runBackground_migrate h
    have hlength := List.length_eraseIdx_add_one (List.getElem?_eq_some_iff.mp hcall).1
    have hset := total_setPhase htask hphase (c.transport.runTask clock outcome call)
    refine Or.inr ⟨hset _ RebalancePhase.unbegun, Or.inr ⟨hset _ RebalancePhase.unread, ?_⟩⟩
    have hunwritten := hset (.migrating ring (pending.eraseIdx i)) RebalancePhase.unwritten
    simp only [RebalancePhase.unwritten] at hunwritten
    refine Nat.add_lt_add_right ?_ c.replicaWrites.length
    omega
  | cleanup nodeId now => exact hs.elim

/-- No step leaves more to do. -/
theorem workLeft_le (h : c.runBackground hashToInt s = some c') : c'.workLeft ≤ c.workLeft := by
  cases s with
  | cleanup nodeId now =>
    obtain rfl := Option.some.inj h
    exact le_rfl
  | _ => exact (workLeft_lt h trivial).le

/-- While something is left to do the loop can go on, however the next call to a node goes. -/
theorem exists_work (hashToInt : String → ℕ) (h : ¬c.Quiescent) (outcome : CallOutcome)
    (now : Time) : ∃ s : BackgroundStep, s.Works ∧ (c.runBackground hashToInt s).isSome := by
  by_cases hwrites : c.replicaWrites = []
  · obtain ⟨task, htask, hdone⟩ : ∃ task ∈ c.rebalances, ¬task.Done := by
      by_contra hall
      exact h ⟨hwrites, fun task htask => by_contra fun hdone => hall ⟨task, htask, hdone⟩⟩
    obtain ⟨index, hindex⟩ := List.mem_iff_getElem?.mp htask
    cases hphase : task.phase with
    | submitted =>
      refine ⟨.begin index, trivial, ?_⟩
      simp only [runBackground, hindex, Option.bind_some, hphase, Option.isSome_some]
    | collecting ring todo snapshots =>
      cases todo with
      | nil =>
        refine ⟨.plan index now fun _ _ => now, trivial, ?_⟩
        simp only [runBackground, hindex, Option.bind_some, hphase, Option.isSome_some]
      | cons node todo =>
        refine ⟨.snapshot index now outcome, trivial, ?_⟩
        simp only [runBackground, hindex, Option.bind_some, hphase]
        cases c.transport.trySnapshot now outcome node <;> rfl
    | migrating ring pending =>
      cases pending with
      | nil => exact absurd (done_iff.mpr ⟨ring, hphase⟩) hdone
      | cons call pending =>
        refine ⟨.migrate index 0 (fun _ => now) outcome, trivial, ?_⟩
        simp only [runBackground, hindex, Option.bind_some, hphase, List.getElem?_cons_zero,
          Option.map_some, Option.isSome_some]
  · obtain ⟨w, ws, hws⟩ := List.exists_cons_of_ne_nil hwrites
    refine ⟨.replicate 0 (fun _ => now) outcome, trivial, ?_⟩
    simp only [runBackground, hws, List.getElem?_cons_zero, Option.map_some, Option.isSome_some]

/-- **The background loop drains**: however its steps are ordered and whatever calls fail, once
the clients are silent all replica writes and all rebalances come to an end, as long as the loop
does not put off what it can do for ever. -/
theorem background_loop_drains {c : ℕ → DistributedCacheCluster V} {s : ℕ → BackgroundStep}
    (hrun : ∀ n, (c n).runBackground hashToInt (s n) = some (c (n + 1)))
    (hfair : ∀ n, (∃ step : BackgroundStep, step.Works ∧
      ((c n).runBackground hashToInt step).isSome) → ∃ k ≥ n, (s k).Works) :
    ∃ N, ∀ n ≥ N, (c n).Quiescent :=
  eventually_drained workLeft (fun n => workLeft_le (hrun n))
    (fun n hworks => workLeft_lt (hrun n) hworks)
    fun n hnot => hfair n (exists_work hashToInt hnot .carriedOut 0)

/-- `"k"` was put on `"a"` and `"b"`, and `"n"` has joined: a replica write and a rebalance wait. -/
def sampleBusy : DistributedCacheCluster ℕ :=
  (((sampleCluster ["a", "b"]).serve sampleHash (fun _ => 0) (.put "k" (some 7) none)).2.serve
    sampleHash (fun _ => 0) (.addNode (sampleNode "n") none)).2

/-- The replica write is carried out, and the rebalance reads, plans a put and a delete, and makes
these calls; the put fails. -/
def sampleWork : List BackgroundStep :=
  [.replicate 0 (fun _ => 0) .carriedOut, .begin 0, .snapshot 0 0 .carriedOut,
    .snapshot 0 0 .carriedOut, .snapshot 0 0 .carriedOut, .plan 0 0 fun _ _ => 0,
    .migrate 0 0 (fun _ => 0) .raised, .migrate 0 0 (fun _ => 0) .carriedOut]

def sampleIdle : BackgroundStep := .cleanup "x" 0

/-- `background_loop_drains` where a replica write and a rebalance wait, which plans two calls. -/
theorem background_loop_drains_sample :
    let c := statesAlong (runBackground sampleHash) sampleIdle sampleBusy sampleWork
    (c 6).total RebalancePhase.unwritten = 2 ∧ ∃ N, ∀ n ≥ N, (c n).Quiescent := by
  intro c
  let s : ℕ → BackgroundStep := fun n => sampleWork.getD n sampleIdle
  have hrun : ∀ n, (c n).runBackground sampleHash (s n) = some (c (n + 1)) :=
    next_statesAlong (fun _ => rfl) (by decide +kernel)
  have hworks : ∀ n < 8, (s n).Works := by decide +kernel
  have hend : (c 8).workLeft = ⊥ := by decide +kernel
  refine ⟨by decide +kernel, background_loop_drains hrun fun n hcan => ?_⟩
  obtain ⟨step, hstep, hsome⟩ := hcan
  obtain ⟨c', hc'⟩ := Option.isSome_iff_exists.mp hsome
  exact works_of_bot workLeft (fun n => workLeft_le (hrun n)) hworks hend
    ⟨c', workLeft_lt hc' hstep⟩

end DistributedCacheCluster

end DistributedCache
