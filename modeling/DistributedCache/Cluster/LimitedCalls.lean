import DistributedCache.Cluster.BackgroundProgress
import DistributedCache.Cluster.Deletion
import DistributedCache.Library.Run
import DistributedCache.Library.Semaphore

/-!
# The limit on background calls

The writes of the background loop go through a semaphore with 50 permits: each replica write and
each call that a rebalance schedules is a task, which waits for a permit, calls the node, and gives
the permit back when it goes on. The snapshots of a rebalance and the calls of clients do not go
through the semaphore. The loop with the semaphore is seen by clients and nodes as the loop
without: it only lets some writes wait longer.

Source: `distributed_cache/cluster/service.py`, `_bg_init`, `_replicate_async`, `_limited_put`,
`_limited_delete` and the tasks of the planners.

## Main definitions

* `LimitedCall` : the calls that go through the semaphore.
* `LimitedLoop`, `LimitedLoop.run` : the background loop with the semaphore.
* `LimitedLoop.Simulates` : the same loop without the semaphore.

## Main results

* `DistributedCacheCluster.exists_serve_eq` : a client call only adds background work.
* `limited_loop_refines` : the loop with the semaphore refines the loop without, and keeps to its
  limit.
* `limited_loop_drains` : it comes to an end.
-/

namespace DistributedCache

open Library DistributedCacheCluster

variable {V : Type*} {hashToInt : String → ℕ}

/-- A call that goes through the semaphore: a replica write, or a call that the rebalance `index`
scheduled. -/
inductive LimitedCall (V : Type*)
  | replicate (write : ReplicaWrite V)
  | migrate (index : ℕ) (call : MigrationTask V)

namespace LimitedCall

def replicate? : LimitedCall V → Option (ReplicaWrite V)
  | .replicate w => some w
  | .migrate _ _ => none

/-- The call, if the rebalance `index` scheduled it. -/
def migrate? (index : ℕ) : LimitedCall V → Option (MigrationTask V)
  | .replicate _ => none
  | .migrate i call => if i = index then some call else none

/-- The call is over, whatever has become of it. -/
def run (t : NodeTransport V) (clock : Clock) (outcome : CallOutcome) :
    LimitedCall V → NodeTransport V
  | .replicate w => t.limitedPut clock outcome w.node w.key w.value w.ttlSeconds
  | .migrate _ call => t.runTask clock outcome call

end LimitedCall

namespace RebalancePhase

/-- The calls of a rebalance that are not over. -/
def scheduled : RebalancePhase V → List (MigrationTask V)
  | .migrating _ pending => pending
  | _ => []

/-- The rebalance without its calls. -/
def handOver : RebalancePhase V → RebalancePhase V
  | .migrating ring _ => .migrating ring []
  | phase => phase

end RebalancePhase

def RebalanceTask.handOver (task : RebalanceTask V) : RebalanceTask V :=
  { task with phase := task.phase.handOver }

namespace DistributedCacheCluster

variable (c : DistributedCacheCluster V)

/-- The calls of the rebalance `index` that are not over. -/
def scheduled (index : ℕ) : List (MigrationTask V) :=
  c.rebalances[index]?.elim [] fun task => task.phase.scheduled

/-- The cluster without the calls that go through the semaphore. -/
def handOver : DistributedCacheCluster V :=
  { c with
    replicaWrites := []
    rebalances := c.rebalances.map RebalanceTask.handOver }

/-- The calls that go through the semaphore. -/
def limitedCalls : List (LimitedCall V) :=
  c.replicaWrites.map .replicate ++
    c.rebalances.zipIdx.flatMap fun p => p.1.phase.scheduled.map (.migrate p.2)

end DistributedCacheCluster

/-- The gateway with the tasks of its calls. -/
structure LimitedLoop (V : Type*) where
  /-- The gateway without the calls that have tasks. -/
  cluster : DistributedCacheCluster V
  semaphore : Semaphore (LimitedCall V)

/-- A step of the background loop: one that does not go through the semaphore, or one of a task. -/
inductive LimitedStep
  | background (step : BackgroundStep)
  | acquire (index : ℕ)
  | finish (index : ℕ) (clock : Clock) (outcome : CallOutcome)
  | release (index : ℕ)

namespace LimitedLoop

/-- `_concurrency_limit`. -/
def concurrencyLimit : ℕ := 50

/-- Every call that was submitted or scheduled gets a task. -/
def createTasks (c : DistributedCacheCluster V) (s : Semaphore (LimitedCall V)) : LimitedLoop V :=
  ⟨c.handOver, s.submit c.limitedCalls⟩

def init (c : DistributedCacheCluster V) : LimitedLoop V := createTasks c (.init concurrencyLimit)

section Hash

variable (hashToInt : String → ℕ) (l : LimitedLoop V)

/-- A client call. -/
def serve (clock : Clock) (call : Call V) : Option (Response V) × LimitedLoop V :=
  let result := l.cluster.serve hashToInt clock call
  (result.1, createTasks result.2 l.semaphore)

/-- One step of the background loop, where it can be taken. -/
def run : LimitedStep → Option (LimitedLoop V)
  | .background s =>
    (l.cluster.runBackground hashToInt s).map fun c => createTasks c l.semaphore
  | .acquire index => (l.semaphore.acquire index).map fun s => { l with semaphore := s }
  | .finish index clock outcome =>
    (l.semaphore.finish index).map fun p =>
      ⟨{ l.cluster with transport := p.1.run l.cluster.transport clock outcome }, p.2⟩
  | .release index => (l.semaphore.release index).map fun s => { l with semaphore := s }

end Hash

end LimitedLoop

/-! ### Calls of clients -/

namespace DistributedCacheCluster

variable {c : DistributedCacheCluster V}

/-- A client call does not look at the background work, it only adds to it. -/
theorem serve_of_work (hashToInt : String → ℕ) (hc : c.replicaWrites = [])
    (ws : List (ReplicaWrite V)) {rebalances : List (RebalanceTask V)} (hlength : rebalances.length = c.rebalances.length)
    (clock : Clock) (call : Call V) :
    { c with replicaWrites := ws, rebalances := rebalances }.serve hashToInt clock call =
      ((c.serve hashToInt clock call).1,
        { (c.serve hashToInt clock call).2 with
          replicaWrites := ws ++ (c.serve hashToInt clock call).2.replicaWrites
          rebalances := rebalances ++
            (c.serve hashToInt clock call).2.rebalances.drop c.rebalances.length }) := by
  cases call with
  | put key value ttlSeconds =>
    simp only [serve, put]
    split
    · simp [hc]
    · split
      · simp [hc]
      · split <;> simp [hc]
  | get key =>
    simp only [serve, DistributedCacheCluster.get]
    split
    · simp [hc]
    · split
      · simp [hc]
      · simp [hc]
      · split
        · simp [hc]
        · split <;> simp [hc]
  | delete key =>
    simp only [serve, delete]
    split
    · simp [hc]
    · split
      · simp [hc]
      · split
        · split
          · simp [hc]
          · split <;> simp [hc]
        · simp [hc]
  | heartbeat nodeId =>
    simp only [serve, heartbeat]
    split
    · simp [hc]
    · split <;> simp [hc]
  | addNode node runtime =>
    simp only [serve, addNode, startRebalanceTask]
    split <;> simp [hc, hlength]
  | removeNode nodeId =>
    simp only [serve, removeNode, startRebalanceTask]
    split <;> simp [hc, hlength]

/-- The rebalance that a client call submits. -/
theorem exists_rebalances_serve (hashToInt : String → ℕ) (c : DistributedCacheCluster V)
    (clock : Clock) (call : Call V) : ∃ new,
      (c.serve hashToInt clock call).2.rebalances = c.rebalances ++ new ∧
        ∀ task ∈ new, task.phase = .submitted := by
  have hsame : c.rebalances = c.rebalances ++ [] := (List.append_nil _).symm
  cases call with
  | put key value ttlSeconds =>
    obtain ⟨manager, transport, writes, heq, -⟩ := c.exists_put_eq clock key value ttlSeconds
    exact ⟨[], by rw [serve, heq]; exact hsame, by simp⟩
  | get key =>
    obtain ⟨manager, transport, heq⟩ := c.exists_get_eq clock key
    exact ⟨[], by rw [serve, heq]; exact hsame, by simp⟩
  | delete key =>
    obtain ⟨transport, heq⟩ := c.exists_delete_eq clock key
    exact ⟨[], by rw [serve, heq]; exact hsame, by simp⟩
  | heartbeat nodeId =>
    obtain ⟨manager, transport, heq⟩ := c.exists_heartbeat_eq clock nodeId
    exact ⟨[], by rw [serve, heq]; exact hsame, by simp⟩
  | addNode node runtime =>
    rw [serve, addNode]
    split_ifs
    · exact ⟨[], hsame, by simp⟩
    · exact ⟨[⟨.add, c.manager.copyRing, .submitted⟩], rfl, by simp⟩
  | removeNode nodeId =>
    rw [serve, removeNode]
    split_ifs
    · exact ⟨[], hsame, by simp⟩
    · exact ⟨[⟨.remove, c.manager.copyRing, .submitted⟩], rfl, by simp⟩

end DistributedCacheCluster

/-! ### The tasks that are created -/

theorem RebalancePhase.handOver_handOver (phase : RebalancePhase V) :
    phase.handOver.handOver = phase.handOver := by
  cases phase <;> rfl

/-- A phase other than the last is not changed. -/
theorem RebalancePhase.eq_of_handOver (phase : RebalancePhase V) {phase' : RebalancePhase V}
    (h : phase.handOver = phase') (hphase' : ∀ ring pending, phase' ≠ .migrating ring pending) :
    phase = phase' := by
  cases phase with
  | migrating ring pending => exact absurd h.symm (hphase' ring [])
  | submitted => exact h
  | collecting ring todo snapshots => exact h

theorem RebalancePhase.scheduled_handOver (phase : RebalancePhase V) :
    phase.handOver.scheduled = [] := by
  cases phase <;> rfl

theorem RebalanceTask.handOver_handOver (task : RebalanceTask V) :
    task.handOver.handOver = task.handOver := by
  simp [RebalanceTask.handOver, RebalancePhase.handOver_handOver]

namespace DistributedCacheCluster

variable (c : DistributedCacheCluster V)

theorem filterMap_replicate_limitedCalls :
    c.limitedCalls.filterMap LimitedCall.replicate? = c.replicaWrites := by
  have hwrites : (c.replicaWrites.map LimitedCall.replicate).filterMap LimitedCall.replicate? =
      c.replicaWrites := by
    simp [List.filterMap_map, LimitedCall.replicate?, Function.comp_def]
  have hcalls : (c.rebalances.zipIdx.flatMap fun p => p.1.phase.scheduled.map
      (LimitedCall.migrate p.2)).filterMap LimitedCall.replicate? = [] := by
    refine List.filterMap_eq_nil_iff.mpr fun call hcall => ?_
    obtain ⟨p, -, hcall⟩ := List.mem_flatMap.mp hcall
    obtain ⟨t, -, rfl⟩ := List.mem_map.mp hcall
    rfl
  rw [limitedCalls, List.filterMap_append, hwrites, hcalls, List.append_nil]

private theorem filterMap_migrate_zipIdx (l : List (RebalanceTask V)) (n index : ℕ) :
    ((l.zipIdx n).flatMap fun p => p.1.phase.scheduled.map (LimitedCall.migrate p.2)).filterMap
        (LimitedCall.migrate? index) =
      if n ≤ index then l[index - n]?.elim [] fun task => task.phase.scheduled else [] := by
  induction l generalizing n with
  | nil => simp
  | cons task l ih =>
    have hhead : (task.phase.scheduled.map (LimitedCall.migrate n)).filterMap
        (LimitedCall.migrate? index) = if n = index then task.phase.scheduled else [] := by
      rw [List.filterMap_map]
      split_ifs with hn
      · subst hn
        exact (congrArg (List.filterMap · _) (funext fun _ => if_pos rfl)).trans
          List.filterMap_some
      · exact List.filterMap_eq_nil_iff.mpr fun _ _ => if_neg hn
    rw [List.zipIdx_cons, List.flatMap_cons, List.filterMap_append, hhead, ih]
    rcases Nat.lt_trichotomy n index with hlt | rfl | hgt
    · obtain ⟨k, rfl⟩ := Nat.exists_eq_add_of_lt hlt
      have hk : n + k + 1 - n = k + 1 := by omega
      have hk' : n + k + 1 - (n + 1) = k := by omega
      rw [if_neg (by omega), if_pos (by omega), if_pos (by omega), hk, hk']
      rfl
    · simp
    · rw [if_neg (by omega), if_neg (by omega), if_neg (by omega)]
      rfl

theorem filterMap_migrate_limitedCalls (index : ℕ) :
    c.limitedCalls.filterMap (LimitedCall.migrate? index) = c.scheduled index := by
  have hwrites : (c.replicaWrites.map LimitedCall.replicate).filterMap
      (LimitedCall.migrate? index) = [] := by
    simp [List.filterMap_eq_nil_iff, LimitedCall.migrate?]
  rw [limitedCalls, List.filterMap_append, hwrites, filterMap_migrate_zipIdx]
  rfl

variable {c}

/-- A rebalance with a scheduled call. -/
theorem exists_of_scheduled {index i : ℕ} {call : MigrationTask V}
    (h : (c.scheduled index)[i]? = some call) : ∃ task ring pending,
      c.rebalances[index]? = some task ∧ task.phase = .migrating ring pending ∧
      c.scheduled index = pending := by
  rw [scheduled] at h ⊢
  cases htask : c.rebalances[index]? with
  | none =>
    rw [htask] at h
    cases h
  | some task =>
    rw [htask, Option.elim_some] at h
    cases hphase : task.phase with
    | migrating ring pending =>
      exact ⟨task, ring, pending, rfl, hphase, by rw [Option.elim_some, hphase]; rfl⟩
    | submitted =>
      rw [hphase] at h
      cases h
    | collecting ring todo snapshots =>
      rw [hphase] at h
      cases h

/-- A rebalance that was only submitted has scheduled nothing. -/
theorem scheduled_append {rebalances new : List (RebalanceTask V)}
    (hc : c.rebalances = rebalances ++ new) (hnew : ∀ task ∈ new, task.phase = .submitted)
    (index : ℕ) :
    c.scheduled index = rebalances[index]?.elim [] fun task => task.phase.scheduled := by
  rw [scheduled, hc]
  rcases Nat.lt_or_ge index rebalances.length with hlt | hge
  · rw [List.getElem?_append_left hlt]
  · rw [List.getElem?_append_right hge, List.getElem?_eq_none hge]
    cases htask : new[index - rebalances.length]? with
    | none => rfl
    | some task =>
      rw [Option.elim_some, hnew task (List.mem_of_getElem? htask)]
      rfl

/-- The phase of one rebalance changes. -/
theorem scheduled_setPhase {index : ℕ} {old : RebalanceTask V}
    (hindex : c.rebalances[index]? = some old) (task : RebalanceTask V) (phase : RebalancePhase V)
    (i : ℕ) : (c.setPhase index task phase).scheduled i =
      if index = i then phase.scheduled else c.scheduled i := by
  have hlt : index < c.rebalances.length := (List.getElem?_eq_some_iff.mp hindex).1
  rw [scheduled, setPhase, List.getElem?_set]
  split_ifs with hi
  · rfl
  · rfl

variable (c)

theorem getElem?_handOver (index : ℕ) :
    c.handOver.rebalances[index]? = c.rebalances[index]?.map RebalanceTask.handOver :=
  List.getElem?_map

theorem handOver_handOver : c.handOver.handOver = c.handOver := by
  simp [handOver, RebalanceTask.handOver_handOver]

theorem scheduled_handOver (index : ℕ) : c.handOver.scheduled index = [] := by
  rw [scheduled, getElem?_handOver]
  cases c.rebalances[index]? with
  | none => rfl
  | some task => exact task.phase.scheduled_handOver

end DistributedCacheCluster

/-! ### The loop without the semaphore -/

namespace LimitedLoop

/-- The cluster whose background work is that of the tasks whose calls are not over. -/
structure Simulates (l : LimitedLoop V) (c : DistributedCacheCluster V) : Prop where
  cluster : l.cluster = c.handOver
  replicaWrites :
    (l.semaphore.unfinished.filterMap LimitedCall.replicate?).Perm c.replicaWrites
  scheduled : ∀ index,
    (l.semaphore.unfinished.filterMap (LimitedCall.migrate? index)).Perm (c.scheduled index)

variable {l l' : LimitedLoop V} {c c' : DistributedCacheCluster V}

/-- Calls that get tasks. -/
theorem simulates_createTasks {d : DistributedCacheCluster V} {s : Semaphore (LimitedCall V)}
    (hcluster : d.handOver = c.handOver)
    (hwrites : (s.unfinished.filterMap LimitedCall.replicate? ++ d.replicaWrites).Perm
      c.replicaWrites)
    (hscheduled : ∀ index, (s.unfinished.filterMap (LimitedCall.migrate? index) ++
      d.scheduled index).Perm (c.scheduled index)) : (createTasks d s).Simulates c where
  cluster := hcluster
  replicaWrites := by
    refine ((s.unfinished_submit d.limitedCalls).filterMap _).trans ?_
    rw [List.filterMap_append, d.filterMap_replicate_limitedCalls]
    exact hwrites
  scheduled index := by
    refine ((s.unfinished_submit d.limitedCalls).filterMap _).trans ?_
    rw [List.filterMap_append, d.filterMap_migrate_limitedCalls]
    exact hscheduled index

theorem simulates_init (c : DistributedCacheCluster V) : (init c).Simulates c :=
  simulates_createTasks rfl (.refl _) fun _ => .refl _

/-- What changes no task. -/
theorem Simulates.of_perm (h : l.Simulates c) {s : Semaphore (LimitedCall V)}
    (hs : s.unfinished.Perm l.semaphore.unfinished) :
    Simulates { l with semaphore := s } c where
  cluster := h.cluster
  replicaWrites := (hs.filterMap _).trans h.replicaWrites
  scheduled index := (hs.filterMap _).trans (h.scheduled index)

/-- A client call. -/
theorem Simulates.serve (h : l.Simulates c) (hashToInt : String → ℕ) (clock : Clock)
    (call : Call V) :
    (c.serve hashToInt clock call).1 = (l.serve hashToInt clock call).1 ∧
      (l.serve hashToInt clock call).2.Simulates (c.serve hashToInt clock call).2 := by
  have hlength : c.rebalances.length = c.handOver.rebalances.length := (List.length_map _).symm
  have hserve := serve_of_work hashToInt (c := c.handOver) rfl c.replicaWrites
    hlength clock call
  obtain ⟨new, hnew, hsubmitted⟩ :=
    c.handOver.exists_rebalances_serve hashToInt clock call
  rw [LimitedLoop.serve, h.cluster]
  generalize c.handOver.serve hashToInt clock call = result at hserve hnew
  obtain ⟨r, d⟩ := result
  rw [hnew, List.drop_left] at hserve
  change c.serve hashToInt clock call = _ at hserve
  rw [hserve]
  refine ⟨rfl, simulates_createTasks ?_ (h.replicaWrites.append_right _) fun index => ?_⟩
  · dsimp only at hnew
    simp [DistributedCacheCluster.handOver, hnew, RebalanceTask.handOver_handOver]
  · have hd : d.scheduled index = [] :=
      (scheduled_append hnew hsubmitted index).trans (c.scheduled_handOver index)
    rw [hd, List.append_nil]
    rw [scheduled_append (c := ⟨d.manager, d.transport, _, _, d.rebalanceFuture⟩) rfl hsubmitted]
    exact h.scheduled index

/-- The phase of a rebalance changes that has scheduled nothing. -/
private theorem Simulates.setPhase (h : l.Simulates c) {index : ℕ} {task : RebalanceTask V}
    (htask : c.rebalances[index]? = some task) (hnone : task.phase.scheduled = [])
    (t : NodeTransport V) (phase : RebalancePhase V) :
    (createTasks ({ c.handOver with transport := t }.setPhase index task.handOver phase)
      l.semaphore).Simulates ({ c with transport := t }.setPhase index task phase) := by
  have htask' : c.handOver.rebalances[index]? = some task.handOver := by
    rw [c.getElem?_handOver, htask]
    rfl
  refine simulates_createTasks ?_ ?_ fun i => ?_
  · have hidem : RebalanceTask.handOver ∘ RebalanceTask.handOver =
        (RebalanceTask.handOver : RebalanceTask V → RebalanceTask V) :=
      funext RebalanceTask.handOver_handOver
    simp only [DistributedCacheCluster.handOver, DistributedCacheCluster.setPhase, List.map_set,
      List.map_map, hidem]
    rfl
  · exact (List.append_nil _).symm ▸ h.replicaWrites
  · rw [scheduled_setPhase (c := { c.handOver with transport := t }) htask',
      scheduled_setPhase (c := { c with transport := t }) htask]
    have hi := h.scheduled i
    split_ifs with heq
    · subst heq
      rw [DistributedCacheCluster.scheduled, htask, Option.elim_some, hnone] at hi
      rw [hi.eq_nil, List.nil_append]
    · have hempty : ({ c.handOver with transport := t } :
          DistributedCacheCluster V).scheduled i = [] := c.scheduled_handOver i
      rw [hempty, List.append_nil]
      exact hi

/-- A rebalance of the cluster that has not handed over its calls. -/
private theorem exists_task {index : ℕ} {task : RebalanceTask V}
    (htask : c.handOver.rebalances[index]? = some task) :
    ∃ task', c.rebalances[index]? = some task' ∧ task'.handOver = task := by
  rw [c.getElem?_handOver] at htask
  exact Option.map_eq_some_iff.mp htask

/-- A step of the background loop that does not go through the semaphore. -/
private theorem Simulates.background (h : l.Simulates c) {s : BackgroundStep}
    {d : DistributedCacheCluster V} (hrun : l.cluster.runBackground hashToInt s = some d) :
    ∃ c', c.runBackground hashToInt s = some c' ∧ (createTasks d l.semaphore).Simulates c' := by
  rw [h.cluster] at hrun
  cases s with
  | replicate index clock outcome =>
    obtain ⟨w, hw, -⟩ := runBackground_replicate hrun
    cases hw
  | begin index =>
    obtain ⟨task, htask, hphase, rfl⟩ := runBackground_begin hrun
    obtain ⟨old, hindex, rfl⟩ := exists_task htask
    have hold := old.phase.eq_of_handOver hphase (by simp)
    refine ⟨_, ?_, h.setPhase hindex (by rw [hold]; rfl) c.transport _⟩
    simp only [runBackground, hindex, Option.bind_some, hold]
    rfl
  | snapshot index now outcome =>
    obtain ⟨task, ring, node, todo, snapshots, htask, hphase, hs⟩ := runBackground_snapshot hrun
    obtain ⟨old, hindex, rfl⟩ := exists_task htask
    have hold := old.phase.eq_of_handOver hphase (by simp)
    rcases hs with ⟨hfail, rfl⟩ | ⟨entries, transport, hsnap, rfl⟩
    · refine ⟨_, ?_, h.setPhase hindex (by rw [hold]; rfl) c.transport _⟩
      change c.transport.trySnapshot now outcome node = none at hfail
      simp only [runBackground, hindex, Option.bind_some, hold, hfail]
    · refine ⟨_, ?_, h.setPhase hindex (by rw [hold]; rfl) transport _⟩
      change c.transport.trySnapshot now outcome node = some (entries, transport) at hsnap
      simp only [runBackground, hindex, Option.bind_some, hold, hsnap]
  | plan index now clock =>
    obtain ⟨task, ring, snapshots, htask, hphase, rfl⟩ := runBackground_plan hrun
    obtain ⟨old, hindex, rfl⟩ := exists_task htask
    have hold := old.phase.eq_of_handOver hphase (by simp)
    refine ⟨_, ?_, h.setPhase hindex (by rw [hold]; rfl) c.transport _⟩
    simp only [runBackground, hindex, Option.bind_some, hold]
    rfl
  | migrate index i clock outcome =>
    -- a rebalance that has handed over its calls has none to make
    obtain ⟨task, ring, pending, call, htask, hphase, hcall, -⟩ := runBackground_migrate hrun
    obtain ⟨old, hindex, rfl⟩ := exists_task htask
    have hnone := old.phase.scheduled_handOver
    change old.phase.handOver = .migrating ring pending at hphase
    rw [hphase] at hnone
    obtain rfl : pending = [] := hnone
    cases hcall
  | cleanup nodeId now =>
    obtain rfl := Option.some.inj hrun
    refine ⟨_, rfl, simulates_createTasks ?_ ?_ fun index => ?_⟩
    · exact congrArg (fun d => { d with transport := c.transport.cleanup now nodeId })
        c.handOver_handOver
    · exact (List.append_nil _).symm ▸ h.replicaWrites
    · have hnone := c.scheduled_handOver index
      change (_ ++ c.handOver.scheduled index).Perm (c.scheduled index)
      rw [hnone, List.append_nil]
      exact h.scheduled index

/-- Taking one call away on both sides. -/
private theorem perm_eraseIdx {τ : Type*} {l m : List τ} {a : τ} {j : ℕ} (h : (a :: l).Perm m)
    (hj : m[j]? = some a) : l.Perm (m.eraseIdx j) :=
  (h.trans (Semaphore.perm_cons_eraseIdx hj)).cons_inv

/-- A call that is over. -/
private theorem Simulates.finish (h : l.Simulates c) {index : ℕ} {call : LimitedCall V}
    {s : Semaphore (LimitedCall V)} (hs : l.semaphore.finish index = some (call, s))
    (hashToInt : String → ℕ) (clock : Clock) (outcome : CallOutcome) :
    ∃ step c', c.runBackground hashToInt step = some c' ∧ Simulates
      ⟨{ l.cluster with transport := call.run l.cluster.transport clock outcome }, s⟩ c' := by
  have hperm := Semaphore.unfinished_finish hs
  rw [h.cluster]
  cases call with
  | replicate w =>
    have hwrites := (hperm.filterMap LimitedCall.replicate?).symm.trans h.replicaWrites
    obtain ⟨j, hj⟩ := List.mem_iff_getElem?.mp (hwrites.subset List.mem_cons_self)
    refine ⟨.replicate j clock outcome, _, by rw [runBackground, hj]; rfl, rfl, ?_, fun i => ?_⟩
    · exact perm_eraseIdx hwrites hj
    · exact (hperm.filterMap (LimitedCall.migrate? i)).symm.trans (h.scheduled i)
  | migrate i call =>
    have hcalls : (call :: s.unfinished.filterMap (LimitedCall.migrate? i)).Perm
        (c.scheduled i) := by
      have hfilter := hperm.filterMap (LimitedCall.migrate? i)
      have hsame : LimitedCall.migrate? i (.migrate i call) = some call := if_pos rfl
      rw [List.filterMap_cons_some hsame] at hfilter
      exact hfilter.symm.trans (h.scheduled i)
    obtain ⟨j, hj⟩ := List.mem_iff_getElem?.mp (hcalls.subset List.mem_cons_self)
    obtain ⟨task, ring, pending, htask, hphase, hscheduled⟩ := exists_of_scheduled hj
    rw [hscheduled] at hj hcalls
    have hrun : c.runBackground hashToInt (.migrate i j clock outcome) =
        some ({ c with transport := c.transport.runTask clock outcome call }.setPhase i task
          (.migrating ring (pending.eraseIdx j))) := by
      simp only [runBackground, htask, Option.bind_some, hphase, hj, Option.map_some]
    refine ⟨_, _, hrun, ?_, ?_, fun i' => ?_⟩
    · have hsame : RebalanceTask.handOver
          { task with phase := .migrating ring (pending.eraseIdx j) } = task.handOver := by
        simp [RebalanceTask.handOver, RebalancePhase.handOver, hphase]
      have hrebalances : (c.rebalances.set i
          { task with phase := .migrating ring (pending.eraseIdx j) }).map
            RebalanceTask.handOver = c.rebalances.map RebalanceTask.handOver := by
        obtain ⟨hlt, rfl⟩ := List.getElem?_eq_some_iff.mp htask
        rw [List.map_set, hsame, ← List.map_set, List.set_getElem_self]
      simp only [DistributedCacheCluster.handOver, DistributedCacheCluster.setPhase, hrebalances]
      rfl
    · exact (hperm.filterMap LimitedCall.replicate?).symm.trans h.replicaWrites
    · rw [scheduled_setPhase
        (c := { c with transport := c.transport.runTask clock outcome call }) htask]
      split_ifs with heq
      · subst heq
        exact perm_eraseIdx hcalls hj
      · have hfilter := hperm.filterMap (LimitedCall.migrate? i')
        have hother : LimitedCall.migrate? i' (.migrate i call) = none := if_neg heq
        rw [List.filterMap_cons_none hother] at hfilter
        exact hfilter.symm.trans (h.scheduled i')

/-- Nothing is left to do. -/
def Drained (l : LimitedLoop V) : Prop := l.semaphore.Idle ∧ l.cluster.Quiescent

theorem Simulates.quiescent (h : l.Simulates c) (hdrained : l.Drained) : c.Quiescent := by
  obtain ⟨⟨hwaiting, hinside, -⟩, hquiescent⟩ := hdrained
  have hnone : l.semaphore.unfinished = [] := by
    rw [Semaphore.unfinished, hwaiting, hinside, List.append_nil]
  have hwrites := h.replicaWrites
  rw [hnone] at hwrites
  refine ⟨hwrites.nil_eq.symm, fun task htask => ?_⟩
  obtain ⟨index, hindex⟩ := List.mem_iff_getElem?.mp htask
  have hscheduled := h.scheduled index
  rw [hnone, DistributedCacheCluster.scheduled, hindex] at hscheduled
  have hdone : task.handOver.Done := hquiescent.rebalances _ <| by
    rw [h.cluster]
    exact List.mem_map_of_mem htask
  obtain ⟨ring, hring⟩ := done_iff.mp hdone
  change task.phase.handOver = .migrating ring [] at hring
  cases hphase : task.phase with
  | migrating ring' pending =>
    rw [Option.elim_some, hphase] at hscheduled
    obtain rfl : [] = pending := hscheduled.nil_eq
    exact done_iff.mpr ⟨ring', hphase⟩
  | submitted =>
    rw [hphase] at hring
    cases hring
  | collecting ring' todo snapshots =>
    rw [hphase] at hring
    cases hring

end LimitedLoop

/-! ### Runs -/

/-- A client call with its response, or a step of the background loop. -/
inductive ServedEvent (V β : Type*)
  | call (clock : Clock) (call : Call V) (response : Option (Response V))
  | work (step : β)

/-- What the clients see. -/
def ServedEvent.told {β : Type*} :
    ServedEvent V β → List (Clock × Call V × Option (Response V))
  | .call clock request response => [(clock, request, response)]
  | .work _ => []

/-- The steps of a gateway without the semaphore. -/
def DistributedCacheCluster.Serves (hashToInt : String → ℕ) (c : DistributedCacheCluster V)
    (e : ServedEvent V BackgroundStep) (c' : DistributedCacheCluster V) : Prop :=
  match e with
  | .call clock call response => c.serve hashToInt clock call = (response, c')
  | .work s => c.runBackground hashToInt s = some c'

namespace LimitedLoop

/-- The steps of a gateway with the semaphore. -/
def Serves (hashToInt : String → ℕ) (l : LimitedLoop V) (e : ServedEvent V LimitedStep)
    (l' : LimitedLoop V) : Prop :=
  match e with
  | .call clock call response => l.serve hashToInt clock call = (response, l')
  | .work s => l.run hashToInt s = some l'

variable {l l' : LimitedLoop V} {c : DistributedCacheCluster V}

/-- One step of a gateway with the semaphore is a step without it, or none. -/
theorem Simulates.exists_run (h : l.Simulates c) {e : ServedEvent V LimitedStep}
    (hstep : l.Serves hashToInt e l') : ∃ events c',
      Run (DistributedCacheCluster.Serves hashToInt) c events c' ∧
      events.flatMap ServedEvent.told = e.told ∧ l'.Simulates c' := by
  cases e with
  | call clock call response =>
    obtain ⟨hresponse, hnext⟩ := h.serve hashToInt clock call
    change l.serve hashToInt clock call = (response, l') at hstep
    rw [hstep] at hresponse hnext
    exact ⟨[.call clock call response], _, .single (Prod.ext hresponse rfl), rfl, hnext⟩
  | work s =>
    cases s with
    | background s =>
      obtain ⟨d, hd, rfl⟩ := Option.map_eq_some_iff.mp hstep
      obtain ⟨c', hc', hnext⟩ := h.background hd
      exact ⟨[.work s], c', .single hc', rfl, hnext⟩
    | acquire index =>
      obtain ⟨s, hs, rfl⟩ := Option.map_eq_some_iff.mp hstep
      exact ⟨[], c, .nil c, rfl, h.of_perm (Semaphore.unfinished_acquire hs)⟩
    | finish index clock outcome =>
      obtain ⟨⟨call, s⟩, hs, rfl⟩ := Option.map_eq_some_iff.mp hstep
      obtain ⟨step, c', hc', hnext⟩ := h.finish hs hashToInt clock outcome
      exact ⟨[.work step], c', .single hc', rfl, hnext⟩
    | release index =>
      obtain ⟨s, hs, rfl⟩ := Option.map_eq_some_iff.mp hstep
      exact ⟨[], c, .nil c, rfl, h.of_perm (.of_eq (Semaphore.unfinished_release hs))⟩

/-- The calls have tasks, and no permit is lost. -/
structure Sound (l : LimitedLoop V) : Prop where
  handOver : l.cluster.handOver = l.cluster
  limits : l.semaphore.Limits concurrencyLimit

theorem sound_createTasks (d : DistributedCacheCluster V) {s : Semaphore (LimitedCall V)}
    (hs : s.Limits concurrencyLimit) : (createTasks d s).Sound :=
  ⟨d.handOver_handOver, hs.submit _⟩

theorem Sound.run (h : l.Sound) {s : LimitedStep} (hstep : l.run hashToInt s = some l') :
    l'.Sound := by
  cases s with
  | background s =>
    obtain ⟨d, -, rfl⟩ := Option.map_eq_some_iff.mp hstep
    exact sound_createTasks d h.limits
  | acquire index =>
    obtain ⟨s, hs, rfl⟩ := Option.map_eq_some_iff.mp hstep
    exact ⟨h.handOver, h.limits.acquire hs⟩
  | finish index clock outcome =>
    obtain ⟨⟨call, s⟩, hs, rfl⟩ := Option.map_eq_some_iff.mp hstep
    refine ⟨?_, h.limits.finish hs⟩
    exact congrArg (fun d : DistributedCacheCluster V => { d with
      transport := call.run l.cluster.transport clock outcome }) h.handOver
  | release index =>
    obtain ⟨s, hs, rfl⟩ := Option.map_eq_some_iff.mp hstep
    exact ⟨h.handOver, h.limits.release hs⟩

theorem Sound.serves (h : l.Sound) {e : ServedEvent V LimitedStep}
    (hstep : l.Serves hashToInt e l') : l'.Sound := by
  cases e with
  | call clock call response =>
    change l.serve hashToInt clock call = (response, l') at hstep
    obtain ⟨-, rfl⟩ := Prod.mk.inj hstep
    exact sound_createTasks _ h.limits
  | work s => exact h.run hstep

end LimitedLoop

/-- **The limit changes nothing but delays.** In every run of the gateway with the semaphore, at
most 50 writes of the background loop are under way at any time. What its clients see and what its
nodes hold is what clients see and nodes hold in some run of the gateway without the semaphore, and
when its tasks have all ended nothing is left to do there either. -/
theorem limited_loop_refines {c : DistributedCacheCluster V} {l : LimitedLoop V}
    {events : List (ServedEvent V LimitedStep)}
    (hrun : Run (LimitedLoop.Serves hashToInt) (.init c) events l) :
    l.semaphore.inside.length + l.semaphore.leaving.length ≤ 50 ∧
    ∃ events' c', Run (DistributedCacheCluster.Serves hashToInt) c events' c' ∧
      events'.flatMap ServedEvent.told = events.flatMap ServedEvent.told ∧
      l.cluster.manager = c'.manager ∧ l.cluster.transport = c'.transport ∧
      (l.Drained → c'.Quiescent) := by
  have hsound : l.Sound := hrun.invariant (fun _ _ _ h hstep => h.serves hstep)
    (LimitedLoop.sound_createTasks c (Semaphore.limits_init _))
  obtain ⟨events', c', hrun', htold, h⟩ :=
    hrun.exists_of_simulation (fun _ _ _ _ h hstep => h.exists_run hstep)
      (LimitedLoop.simulates_init c)
  refine ⟨hsound.limits.length_le, events', c', hrun', htold, ?_, ?_, h.quiescent⟩
  · rw [h.cluster]
    rfl
  · rw [h.cluster]
    rfl

/-- `limited_loop_refines` where the replica write of a put goes through the semaphore. -/
theorem limited_loop_refines_sample : ∃ events l,
    Run (LimitedLoop.Serves sampleHash) (.init (sampleCluster ["a", "b"])) events l ∧
    l.semaphore.inside.length + l.semaphore.leaving.length ≤ 50 ∧
    ∃ events' c', Run (DistributedCacheCluster.Serves sampleHash) (sampleCluster ["a", "b"]) events'
      c' ∧ c'.Quiescent ∧ l.cluster.transport = c'.transport := by
  let start : LimitedLoop ℕ := .init (sampleCluster ["a", "b"])
  let put : Call ℕ := .put "k" (some 1) none
  have hrun : ((((start.serve sampleHash (fun _ => 0) put).2.run sampleHash (.acquire 0)).bind
      fun l => (l.run sampleHash (.finish 0 (fun _ => 0) .carriedOut)).bind
        fun l => l.run sampleHash (.release 0)).any fun l => l.semaphore.waiting.isEmpty &&
          l.semaphore.inside.isEmpty && l.semaphore.leaving.isEmpty &&
            decide l.cluster.Quiescent) = true := by
    decide +kernel
  obtain ⟨l₃, hl₃, hdrained⟩ := (Option.any_eq_true _ _).mp hrun
  obtain ⟨l₁, hacquire, hl₃⟩ := Option.bind_eq_some_iff.mp hl₃
  obtain ⟨l₂, hfinish, hrelease⟩ := Option.bind_eq_some_iff.mp hl₃
  simp only [Bool.and_eq_true, List.isEmpty_iff, decide_eq_true_eq, and_assoc] at hdrained
  obtain ⟨hwaiting, hinside, hleaving, hquiescent⟩ := hdrained
  have hrun' : Run (LimitedLoop.Serves sampleHash) start
      [.call (fun _ => 0) put (start.serve sampleHash (fun _ => 0) put).1, .work (.acquire 0),
        .work (.finish 0 (fun _ => 0) .carriedOut), .work (.release 0)] l₃ :=
    .cons rfl (.cons hacquire (.cons hfinish (.single hrelease)))
  obtain ⟨hlimit, events', c', hrun'', -, -, htransport, hdone⟩ := limited_loop_refines hrun'
  exact ⟨_, l₃, hrun', hlimit, events', c', hrun'',
    hdone ⟨⟨hwaiting, hinside, hleaving⟩, hquiescent⟩, htransport⟩

/-! ### The loop comes to an end -/

/-- The step is not a cleanup pass of a store. -/
def LimitedStep.Works : LimitedStep → Prop
  | .background s => s.Works
  | _ => True

instance : DecidablePred LimitedStep.Works
  | .background s => inferInstanceAs (Decidable s.Works)
  | .acquire _ | .finish _ _ _ | .release _ => isTrue trivial

namespace LimitedLoop

variable {l l' : LimitedLoop V}

/-- What is left to do: rebalances to begin, snapshots to read, and tasks. -/
def workLeft (l : LimitedLoop V) : ℕ ×ₗ ℕ ×ₗ ℕ :=
  toLex (l.cluster.total RebalancePhase.unbegun, toLex (l.cluster.total RebalancePhase.unread,
    l.semaphore.load))

/-- Handing over its calls does not change what is left to begin and to read. -/
private theorem total_handOver (c : DistributedCacheCluster V) {μ : RebalancePhase V → ℕ}
    (hμ : ∀ phase, μ phase.handOver = μ phase) : c.handOver.total μ = c.total μ := by
  rw [DistributedCacheCluster.total, DistributedCacheCluster.total,
    DistributedCacheCluster.handOver, List.map_map]
  exact congrArg List.sum (List.map_congr_left fun task _ => hμ task.phase)

private theorem unbegun_handOver (phase : RebalancePhase V) :
    phase.handOver.unbegun = phase.unbegun := by
  cases phase <;> rfl

private theorem unread_handOver (phase : RebalancePhase V) :
    phase.handOver.unread = phase.unread := by
  cases phase <;> rfl

theorem workLeft_createTasks (d : DistributedCacheCluster V) (s : Semaphore (LimitedCall V)) :
    (createTasks d s).workLeft = toLex (d.total RebalancePhase.unbegun,
      toLex (d.total RebalancePhase.unread, (s.submit d.limitedCalls).load)) := by
  rw [workLeft, createTasks, total_handOver d unbegun_handOver, total_handOver d unread_handOver]

/-- No calls are left to hand over. -/
theorem Sound.limitedCalls (h : l.Sound) : l.cluster.limitedCalls = [] := by
  rw [← h.handOver, DistributedCacheCluster.limitedCalls, List.append_eq_nil_iff,
    List.flatMap_eq_nil_iff]
  refine ⟨rfl, fun p hp => ?_⟩
  obtain ⟨task, -, htask⟩ := List.mem_map.mp (List.fst_mem_of_mem_zipIdx hp)
  rw [← htask, RebalanceTask.handOver, RebalancePhase.scheduled_handOver, List.map_nil]

theorem Sound.unwritten (h : l.Sound) :
    l.cluster.total RebalancePhase.unwritten + l.cluster.replicaWrites.length = 0 := by
  rw [← h.handOver, DistributedCacheCluster.total, DistributedCacheCluster.handOver, List.map_map]
  refine List.sum_eq_zero fun n hn => ?_
  obtain ⟨task, -, rfl⟩ := List.mem_map.mp hn
  change task.phase.handOver.unwritten = 0
  cases task.phase <;> rfl

/-- Every step but a cleanup leaves less to do. -/
theorem Sound.workLeft_lt (h : l.Sound) {s : LimitedStep} (hs : s.Works)
    (hstep : l.run hashToInt s = some l') : l'.workLeft < l.workLeft := by
  have htask : ∀ {t : NodeTransport V} {s : Semaphore (LimitedCall V)},
      s.load < l.semaphore.load →
        workLeft ⟨{ l.cluster with transport := t }, s⟩ < l.workLeft := fun hlt =>
    Prod.Lex.toLex_lt_toLex.mpr (Or.inr ⟨rfl, Prod.Lex.toLex_lt_toLex.mpr (Or.inr ⟨rfl, hlt⟩)⟩)
  cases s with
  | background s =>
    obtain ⟨d, hd, rfl⟩ := Option.map_eq_some_iff.mp hstep
    have hlt := DistributedCacheCluster.workLeft_lt hd hs
    rw [DistributedCacheCluster.workLeft, DistributedCacheCluster.workLeft, h.unwritten,
      Prod.Lex.toLex_lt_toLex, Prod.Lex.toLex_lt_toLex] at hlt
    rw [workLeft_createTasks, workLeft, Prod.Lex.toLex_lt_toLex, Prod.Lex.toLex_lt_toLex]
    exact hlt.imp_right (And.imp_right fun hlt => Or.inl
      (hlt.resolve_right fun hzero => Nat.not_lt_zero _ hzero.2))
  | acquire index =>
    obtain ⟨s, hs, rfl⟩ := Option.map_eq_some_iff.mp hstep
    exact htask (Semaphore.load_acquire hs)
  | finish index clock outcome =>
    obtain ⟨⟨call, s⟩, hs, rfl⟩ := Option.map_eq_some_iff.mp hstep
    exact htask (Semaphore.load_finish hs)
  | release index =>
    obtain ⟨s, hs, rfl⟩ := Option.map_eq_some_iff.mp hstep
    exact htask (Semaphore.load_release hs)

theorem Sound.workLeft_le (h : l.Sound) {s : LimitedStep}
    (hstep : l.run hashToInt s = some l') : l'.workLeft ≤ l.workLeft := by
  cases s with
  | background s =>
    cases s with
    | cleanup nodeId now =>
      obtain rfl := Option.some.inj hstep
      rw [workLeft_createTasks]
      have hnone : DistributedCacheCluster.limitedCalls
          { l.cluster with transport := l.cluster.transport.cleanup now nodeId } = [] :=
        h.limitedCalls
      rw [hnone, Semaphore.submit, List.append_nil]
      exact le_rfl
    | _ => exact (h.workLeft_lt (by trivial) hstep).le
  | _ => exact (h.workLeft_lt (by trivial) hstep).le

/-- While something is left to do the loop can go on. -/
theorem Sound.exists_work (h : l.Sound) (hashToInt : String → ℕ) (hdrained : ¬l.Drained) :
    ∃ s : LimitedStep, s.Works ∧ (l.run hashToInt s).isSome := by
  by_cases hidle : l.semaphore.Idle
  · obtain ⟨s, hs, hstep⟩ := DistributedCacheCluster.exists_work hashToInt
      (fun hquiescent => hdrained ⟨hidle, hquiescent⟩) .carriedOut 0
    exact ⟨.background s, hs, by rw [LimitedLoop.run, Option.isSome_map]; exact hstep⟩
  · rcases h.limits.exists_step (by decide) hidle with ⟨s, hs⟩ | ⟨task, s, hs⟩ | ⟨s, hs⟩
    · exact ⟨.acquire 0, trivial, by rw [LimitedLoop.run, hs]; rfl⟩
    · exact ⟨.finish 0 (fun _ => 0) .carriedOut, trivial, by rw [LimitedLoop.run, hs]; rfl⟩
    · exact ⟨.release 0, trivial, by rw [LimitedLoop.run, hs]; rfl⟩

end LimitedLoop

private theorem sound_of_run {c : DistributedCacheCluster V} {l : ℕ → LimitedLoop V}
    {events : List (ServedEvent V LimitedStep)} {s : ℕ → LimitedStep}
    (hstart : Run (LimitedLoop.Serves hashToInt) (.init c) events (l 0))
    (hrun : ∀ n, (l n).run hashToInt (s n) = some (l (n + 1))) (n : ℕ) : (l n).Sound := by
  induction n with
  | zero =>
    exact hstart.invariant (fun _ _ _ h hstep => h.serves hstep)
      (LimitedLoop.sound_createTasks c (Semaphore.limits_init _))
  | succ n ih => exact ih.run (hrun n)

/-- **The loop with the semaphore drains.** Once the clients are silent, all tasks and all
rebalances come to an end, whatever calls fail and in whatever order tasks get permits, as long as
the loop does not put off what it can do for ever and every call to a node is over some time. -/
theorem limited_loop_drains {c : DistributedCacheCluster V} {l : ℕ → LimitedLoop V}
    {events : List (ServedEvent V LimitedStep)} {s : ℕ → LimitedStep}
    (hstart : Run (LimitedLoop.Serves hashToInt) (.init c) events (l 0))
    (hrun : ∀ n, (l n).run hashToInt (s n) = some (l (n + 1)))
    (hfair : ∀ n, (∃ step : LimitedStep, step.Works ∧ ((l n).run hashToInt step).isSome) →
      ∃ k ≥ n, (s k).Works) : ∃ N, ∀ n ≥ N, (l n).Drained := by
  have hsound := sound_of_run hstart hrun
  exact eventually_drained LimitedLoop.workLeft (fun n => (hsound n).workLeft_le (hrun n))
    (fun n hworks => (hsound n).workLeft_lt hworks (hrun n))
    fun n hnot => hfair n ((hsound n).exists_work hashToInt hnot)

/-- `"k"` is put on `"a"` and `"b"`, and `"n"` joins. -/
def sampleLimitedLoop : LimitedLoop ℕ :=
  (((LimitedLoop.init (sampleCluster ["a", "b"])).serve sampleHash (fun _ => 0)
    (.put "k" (some 7) none)).2.serve sampleHash (fun _ => 0) (.addNode (sampleNode "n") none)).2

/-- The replica write goes through the semaphore, the rebalance plans a put and a delete, and both
are under way at the same time; the put fails. -/
def sampleLimitedSteps : List LimitedStep :=
  [.acquire 0, .finish 0 (fun _ => 0) .carriedOut, .release 0, .background (.begin 0),
    .background (.snapshot 0 0 .carriedOut), .background (.snapshot 0 0 .carriedOut),
    .background (.snapshot 0 0 .carriedOut), .background (.plan 0 0 fun _ _ => 0), .acquire 0,
    .acquire 0, .finish 0 (fun _ => 0) .raised, .finish 0 (fun _ => 0) .carriedOut, .release 0,
    .release 0]

/-- `limited_loop_drains` where a replica write and a rebalance wait, which plans two calls. -/
theorem limited_loop_drains_sample :
    let l := statesAlong (LimitedLoop.run sampleHash) (.background sampleIdle) sampleLimitedLoop
      sampleLimitedSteps
    (l 10).semaphore.inside.length = 2 ∧ ∃ N, ∀ n ≥ N, (l n).Drained := by
  intro l
  let s : ℕ → LimitedStep := fun n => sampleLimitedSteps.getD n (.background sampleIdle)
  have hstart : Run (LimitedLoop.Serves sampleHash) (.init (sampleCluster ["a", "b"]))
      [.call (fun _ => 0) (.put "k" (some 7) none) _,
        .call (fun _ => 0) (.addNode (sampleNode "n") none) _] (l 0) := .cons rfl (.single rfl)
  have hrun : ∀ n, (l n).run sampleHash (s n) = some (l (n + 1)) :=
    next_statesAlong (fun _ => rfl) (by decide +kernel)
  have hworks : ∀ n < 14, (s n).Works := by decide +kernel
  have hend : (l 14).workLeft = ⊥ := by decide +kernel
  refine ⟨by decide +kernel, limited_loop_drains hstart hrun fun n hcan => ?_⟩
  have hsound := sound_of_run hstart hrun
  obtain ⟨step, hstep, hsome⟩ := hcan
  obtain ⟨l', hl'⟩ := Option.isSome_iff_exists.mp hsome
  exact works_of_bot LimitedLoop.workLeft (fun n => (hsound n).workLeft_le (hrun n)) hworks hend
    ⟨l', (hsound n).workLeft_lt hstep hl'⟩

end DistributedCache
