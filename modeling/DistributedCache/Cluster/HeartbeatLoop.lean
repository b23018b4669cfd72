import DistributedCache.Cluster.Deletion
import DistributedCache.Cluster.KeyValueMap
import DistributedCache.Library.RoundRobin
import DistributedCache.Library.Run

/-!
# The heartbeat loop of the gateway

The gateway asks its members for heartbeats, one after another, sleeps for a second, and begins
again. It waits for each of them, so a member that is slow to answer, or to fail, delays the
heartbeats of all others. A member that answers all its heartbeats is never taken for dead exactly
if a whole round, the sleep included, fits into the heartbeat timeout.

Source: `distributed_cache/api/app.py`, `heartbeat_loop`.

## Main definitions

* `HeartbeatLoop`, `HeartbeatLoop.step` : the loop at work beside the calls of clients.
* `HeartbeatLoop.Timely` : bounds on how long the members and the sleep take.

## Main results

* `HeartbeatLoop.InTime.step` : what is left of a round makes up for the age of a heartbeat.
* `heartbeats_keep_alive_iff` : when the loop keeps a member alive.
-/

namespace DistributedCache

open Library Library.RoundRobin DistributedCacheCluster

variable {V : Type*}

/-- The gateway, the time, and where the loop stands; members are known by their ids. -/
structure HeartbeatLoop (V : Type*) where
  cluster : DistributedCacheCluster V
  now : Time
  phase : Phase String

/-- A step of the loop, some time that passes while it waits, or a call of a client. -/
inductive LoopEvent (V : Type*)
  | begin
  | ask
  | elapse (duration : Time)
  | beat
  | sleep
  | wake
  | call (call : Call V)

/-- A call that leaves the members as they are. -/
def Call.KeepsMembers : Call V → Prop
  | .addNode _ _ | .removeNode _ => False
  | _ => True

instance (call : Call V) : Decidable call.KeepsMembers := by
  unfold Call.KeepsMembers
  split <;> infer_instance

namespace HeartbeatLoop

/-- One event. The loop wakes up a second after it went to sleep, or later; a call of a client
reads the clock at an instant. -/
def step (hashToInt : String → ℕ) (x : HeartbeatLoop V) :
    LoopEvent V → Option (HeartbeatLoop V)
  | .begin =>
    match x.phase with
    | .idle =>
      some { x with phase := .between (x.cluster.manager.getAllNodes.map NodeConfig.nodeId) }
    | _ => none
  | .ask =>
    match x.phase with
    | .between (nodeId :: todo) => some { x with phase := .visiting nodeId todo 0 }
    | _ => none
  | .elapse duration =>
    match x.phase with
    | .visiting nodeId todo spent =>
      some { x with now := x.now + duration, phase := .visiting nodeId todo (spent + duration) }
    | .pausing spent =>
      some { x with now := x.now + duration, phase := .pausing (spent + duration) }
    | _ => none
  | .beat =>
    match x.phase with
    | .visiting nodeId todo _ =>
      some { x with
        cluster := (x.cluster.serve hashToInt (fun _ => x.now) (.heartbeat nodeId)).2
        phase := .between todo }
    | _ => none
  | .sleep =>
    match x.phase with
    | .between [] => some { x with phase := .pausing 0 }
    | _ => none
  | .wake =>
    match x.phase with
    | .pausing spent => if 1 ≤ spent then some { x with phase := .idle } else none
    | _ => none
  | .call call =>
    if call.KeepsMembers then
      some { x with cluster := (x.cluster.serve hashToInt (fun _ => x.now) call).2 }
    else none

/-- Visits take at most their cost and sleeping at most `pause`; the member `nodeId` answers its
heartbeats. -/
def Timely (cost : String → Time) (pause : Time) (nodeId : String) (x : HeartbeatLoop V) :
    LoopEvent V → HeartbeatLoop V → Prop
  | .elapse duration, x' => 0 ≤ duration ∧ x'.phase.Timely cost pause
  | .beat, _ => ∀ todo spent, x.phase = .visiting nodeId todo spent →
      x.cluster.transport.Answers nodeId
  | _, _ => True

/-- A step of the loop in time. -/
def TimelyStep (hashToInt : String → ℕ) (cost : String → Time) (pause : Time) (nodeId : String)
    (x : HeartbeatLoop V) (e : LoopEvent V) (x' : HeartbeatLoop V) : Prop :=
  x.step hashToInt e = some x' ∧ x.Timely cost pause nodeId e x'

end HeartbeatLoop

/-! ### Heartbeats that calls record -/

theorem ClusterManager.lastHeartbeat_recordHeartbeat_of_ne {m : ClusterManager} {now : Time}
    {nodeId other : String} (hne : other ≠ nodeId) :
    (m.recordHeartbeat now nodeId).lastHeartbeat other = m.lastHeartbeat other := by
  rw [recordHeartbeat]
  split_ifs
  · exact Function.update_of_ne hne _ _
  · rfl

theorem ClusterManager.lastHeartbeat_recordHeartbeat_self {m : ClusterManager} {now : Time}
    {nodeId : String} (hmember : nodeId ∈ m.nodes) :
    (m.recordHeartbeat now nodeId).lastHeartbeat nodeId = some now := by
  rw [recordHeartbeat, if_pos hmember]
  exact Function.update_self _ _ _

theorem ClusterManager.heartbeatTimeoutSeconds_recordHeartbeat {m : ClusterManager} {now : Time}
    {nodeId : String} :
    (m.recordHeartbeat now nodeId).heartbeatTimeoutSeconds = m.heartbeatTimeoutSeconds := by
  rw [recordHeartbeat]
  split_ifs <;> rfl

namespace DistributedCacheCluster

variable {hashToInt : String → ℕ} {c : DistributedCacheCluster V} {now : Time} {nodeId : String}

/-- A heartbeat that the node answers. -/
theorem manager_heartbeat (clock : Clock) {node : NodeConfig}
    (hnode : c.manager.getNode nodeId = some node) (hanswers : c.transport.Answers node.nodeId) :
    (c.serve hashToInt clock (.heartbeat nodeId)).2.manager =
      c.manager.recordHeartbeat (clock 1) nodeId := by
  obtain ⟨transport, hbeat, -⟩ := NodeTransport.heartbeat_eq hanswers (clock 0)
  rw [serve, heartbeat, hnode]
  dsimp only
  rw [hbeat]

/-- A heartbeat of a node leaves those of the others. -/
theorem lastHeartbeat_heartbeat_of_ne (clock : Clock) {other : String} (hne : other ≠ nodeId) :
    (c.serve hashToInt clock (.heartbeat nodeId)).2.manager.lastHeartbeat other =
      c.manager.lastHeartbeat other := by
  rw [serve, heartbeat]
  split
  · rfl
  · split
    · rfl
    · exact ClusterManager.lastHeartbeat_recordHeartbeat_of_ne hne

/-- A call that leaves the members as they are records one heartbeat at most. -/
theorem manager_serve (hashToInt : String → ℕ) (c : DistributedCacheCluster V) (now : Time)
    {call : Call V} (h : call.KeepsMembers) :
    (c.serve hashToInt (fun _ => now) call).2.manager = c.manager ∨
      ∃ nodeId, (c.serve hashToInt (fun _ => now) call).2.manager =
        c.manager.recordHeartbeat now nodeId := by
  cases call with
  | put key value ttlSeconds =>
    rw [serve, put]
    dsimp only
    split
    · exact Or.inl rfl
    · split
      · exact Or.inl rfl
      · split_ifs
        · exact Or.inr ⟨_, rfl⟩
        · exact Or.inl rfl
  | get key =>
    rw [serve, get]
    dsimp only
    split
    · exact Or.inl rfl
    · split
      · exact Or.inl rfl
      · exact Or.inr ⟨_, rfl⟩
      · split
        · exact Or.inl rfl
        · split <;> exact Or.inl rfl
  | delete key =>
    obtain ⟨transport, heq⟩ := c.exists_delete_eq (fun _ => now) key
    rw [serve, heq]
    exact Or.inl rfl
  | heartbeat other =>
    rw [serve, heartbeat]
    split
    · exact Or.inl rfl
    · split
      · exact Or.inl rfl
      · exact Or.inr ⟨_, rfl⟩
  | addNode node runtime => exact h.elim
  | removeNode other => exact h.elim

end DistributedCacheCluster

namespace HeartbeatLoop

variable {hashToInt : String → ℕ} {cost : String → Time} {pause timeout : Time} {nodeId : String}
  {order : List String} {x x' : HeartbeatLoop V} {e : LoopEvent V}

/-- The loop has the members `order` and this timeout, and keeps its bounds. -/
structure Regular (hashToInt : String → ℕ) (cost : String → Time) (pause timeout : Time)
    (order : List String) (x : HeartbeatLoop V) : Prop where
  coherent : x.cluster.manager.Coherent hashToInt
  nodes : x.cluster.manager.nodes.keys = order
  timeout : x.cluster.manager.heartbeatTimeoutSeconds = timeout
  timely : x.phase.Timely cost pause
  inRound : x.phase.InRound order

/-- The age of the heartbeat of the member, and what is left until its next one, make up no more
than a period. -/
def InTime (cost : String → Time) (pause : Time) (order : List String) (nodeId : String)
    (x : HeartbeatLoop V) : Prop :=
  ∃ lastSeen, x.cluster.manager.lastHeartbeat nodeId = some lastSeen ∧ lastSeen ≤ x.now ∧
    x.now - lastSeen + remaining cost pause nodeId order x.phase ≤ period cost pause order

/-- A call that leaves the members as they are, and moves on the loop. -/
private theorem Regular.serve (h : x.Regular hashToInt cost pause timeout order) {call : Call V}
    (hcall : call.KeepsMembers) {phase : Phase String} (htimely : phase.Timely cost pause)
    (hround : phase.InRound order) :
    Regular hashToInt cost pause timeout order
      { x with
        cluster := (x.cluster.serve hashToInt (fun _ => x.now) call).2
        phase := phase } := by
  rcases manager_serve hashToInt x.cluster x.now hcall with heq | ⟨other, heq⟩
  all_goals
    refine ⟨?_, ?_, ?_, htimely, hround⟩ <;> dsimp only <;> rw [heq]
  · exact h.coherent
  · exact h.nodes
  · exact h.timeout
  · exact h.coherent.recordHeartbeat x.now other
  · rw [ClusterManager.nodes_recordHeartbeat]
    exact h.nodes
  · rw [ClusterManager.heartbeatTimeoutSeconds_recordHeartbeat]
    exact h.timeout

theorem Regular.step (hcost : ∀ i, 0 ≤ cost i) (hpause : 0 ≤ pause)
    (h : x.Regular hashToInt cost pause timeout order)
    (hstep : x.TimelyStep hashToInt cost pause nodeId e x') :
    x'.Regular hashToInt cost pause timeout order := by
  obtain ⟨hstep, htimely⟩ := hstep
  cases e with
  | begin =>
    dsimp only [HeartbeatLoop.step] at hstep
    split at hstep
    · obtain rfl := Option.some.inj hstep
      have horder : x.cluster.manager.getAllNodes.map NodeConfig.nodeId = order :=
        h.coherent.map_nodeId_getAllNodes.trans h.nodes
      refine ⟨h.coherent, h.nodes, h.timeout, trivial, ?_⟩
      rw [horder]
      exact List.suffix_rfl
    · cases hstep
  | ask =>
    dsimp only [HeartbeatLoop.step] at hstep
    split at hstep
    · rename_i other todo hphase
      obtain rfl := Option.some.inj hstep
      have hround := h.inRound
      rw [hphase] at hround
      exact ⟨h.coherent, h.nodes, h.timeout, hcost other, hround⟩
    · cases hstep
  | elapse duration =>
    dsimp only [HeartbeatLoop.step] at hstep
    have hround := h.inRound
    split at hstep
    · rename_i other todo spent hphase
      obtain rfl := Option.some.inj hstep
      rw [hphase] at hround
      exact ⟨h.coherent, h.nodes, h.timeout, htimely.2, hround⟩
    · obtain rfl := Option.some.inj hstep
      exact ⟨h.coherent, h.nodes, h.timeout, htimely.2, trivial⟩
    · cases hstep
  | beat =>
    dsimp only [HeartbeatLoop.step] at hstep
    split at hstep
    · rename_i other todo spent hphase
      obtain rfl := Option.some.inj hstep
      have hround := h.inRound
      rw [hphase] at hround
      have hcall : Call.KeepsMembers (.heartbeat other : Call V) := trivial
      exact h.serve hcall trivial ((List.suffix_cons other todo).trans hround)
    · cases hstep
  | sleep =>
    dsimp only [HeartbeatLoop.step] at hstep
    split at hstep
    · obtain rfl := Option.some.inj hstep
      exact ⟨h.coherent, h.nodes, h.timeout, hpause, trivial⟩
    · cases hstep
  | wake =>
    dsimp only [HeartbeatLoop.step] at hstep
    split at hstep
    · split_ifs at hstep
      obtain rfl := Option.some.inj hstep
      exact ⟨h.coherent, h.nodes, h.timeout, trivial, trivial⟩
    · cases hstep
  | call call =>
    dsimp only [HeartbeatLoop.step] at hstep
    split_ifs at hstep with hcall
    obtain rfl := Option.some.inj hstep
    exact h.serve hcall h.timely h.inRound

/-- A heartbeat of the member arrives, or was there before. -/
private theorem InTime.serve (h : x.InTime cost pause order nodeId) {call : Call V}
    (hmember : nodeId ∈ x.cluster.manager.nodes) (hcall : call.KeepsMembers) {phase : Phase String}
    (hphase : remaining cost pause nodeId order phase ≤
      remaining cost pause nodeId order x.phase) :
    InTime cost pause order nodeId
      { x with
        cluster := (x.cluster.serve hashToInt (fun _ => x.now) call).2
        phase := phase } := by
  obtain ⟨lastSeen, hseen, hle, hleft⟩ := h
  have hsame : InTime cost pause order nodeId { x with phase := phase } :=
    ⟨lastSeen, hseen, hle, (add_le_add_right hphase _).trans hleft⟩
  rcases manager_serve hashToInt x.cluster x.now hcall with heq | ⟨other, heq⟩
  · rw [InTime, heq]
    exact hsame
  · rw [InTime, heq]
    by_cases hother : nodeId = other
    · refine ⟨x.now, ?_, le_rfl, ?_⟩
      · rw [← hother]
        exact ClusterManager.lastHeartbeat_recordHeartbeat_self hmember
      · dsimp only
        linarith
    · rw [ClusterManager.lastHeartbeat_recordHeartbeat_of_ne hother]
      exact hsame

/-- **What is left of a round makes up for the age of a heartbeat.** -/
theorem InTime.step (hregular : x.Regular hashToInt cost pause timeout order)
    (hnodup : order.Nodup) (hmember : nodeId ∈ order) (h : x.InTime cost pause order nodeId)
    (hstep : x.TimelyStep hashToInt cost pause nodeId e x') :
    x'.InTime cost pause order nodeId := by
  obtain ⟨hstep, htimely⟩ := hstep
  have hnode : nodeId ∈ x.cluster.manager.nodes := by
    rw [OrderedDict.mem_def, hregular.nodes]
    exact hmember
  obtain ⟨lastSeen, hseen, hle, hleft⟩ := id h
  cases e with
  | begin =>
    dsimp only [HeartbeatLoop.step] at hstep
    split at hstep
    · rename_i hphase
      obtain rfl := Option.some.inj hstep
      have horder : x.cluster.manager.getAllNodes.map NodeConfig.nodeId = order :=
        hregular.coherent.map_nodeId_getAllNodes.trans hregular.nodes
      rw [hphase] at hleft
      refine ⟨lastSeen, hseen, hle, ?_⟩
      rw [horder, remaining_between hmember]
      exact hleft
    · cases hstep
  | ask =>
    dsimp only [HeartbeatLoop.step] at hstep
    split at hstep
    · rename_i other todo hphase
      obtain rfl := Option.some.inj hstep
      rw [hphase] at hleft
      refine ⟨lastSeen, hseen, hle, ?_⟩
      rw [remaining_visiting]
      exact hleft
    · cases hstep
  | elapse duration =>
    obtain ⟨hpos, -⟩ := htimely
    dsimp only [HeartbeatLoop.step] at hstep
    split at hstep
    · rename_i other todo spent hphase
      obtain rfl := Option.some.inj hstep
      rw [hphase] at hleft
      refine ⟨lastSeen, hseen, hle.trans (le_add_of_nonneg_right hpos), ?_⟩
      rw [remaining_visiting_add]
      dsimp only
      linarith
    · rename_i spent hphase
      obtain rfl := Option.some.inj hstep
      rw [hphase] at hleft
      refine ⟨lastSeen, hseen, hle.trans (le_add_of_nonneg_right hpos), ?_⟩
      rw [remaining_pausing_add]
      dsimp only
      linarith
    · cases hstep
  | beat =>
    dsimp only [HeartbeatLoop.step] at hstep
    split at hstep
    · rename_i other todo spent hphase
      obtain rfl := Option.some.inj hstep
      by_cases hother : other = nodeId
      · subst hother
        -- the member answers, and a whole period is left
        obtain ⟨node, hget⟩ := OrderedDict.mem_iff_exists_get?.mp hnode
        have hanswers : x.cluster.transport.Answers node.nodeId := by
          rw [hregular.coherent.key_eq other node hget]
          exact htimely todo spent hphase
        have hround := hregular.inRound
        rw [hphase] at hround
        refine ⟨x.now, ?_, le_rfl, ?_⟩
        · dsimp only
          rw [manager_heartbeat _ hget hanswers]
          exact ClusterManager.lastHeartbeat_recordHeartbeat_self hnode
        · rw [remaining_between_of_suffix hnodup hround]
          dsimp only
          linarith
      · have hcall : Call.KeepsMembers (.heartbeat other : Call V) := trivial
        refine h.serve hnode hcall ?_
        have hspent := hregular.timely
        rw [hphase] at hspent ⊢
        exact remaining_of_visited hother hspent
    · cases hstep
  | sleep =>
    dsimp only [HeartbeatLoop.step] at hstep
    split at hstep
    · rename_i hphase
      obtain rfl := Option.some.inj hstep
      rw [hphase] at hleft
      refine ⟨lastSeen, hseen, hle, ?_⟩
      rw [remaining_pausing]
      exact hleft
    · cases hstep
  | wake =>
    dsimp only [HeartbeatLoop.step] at hstep
    split at hstep
    · rename_i spent hphase
      split_ifs at hstep
      obtain rfl := Option.some.inj hstep
      have hspent := hregular.timely
      rw [hphase] at hspent hleft
      exact ⟨lastSeen, hseen, hle,
        (add_le_add_right (remaining_of_paused hspent) _).trans hleft⟩
    · cases hstep
  | call call =>
    dsimp only [HeartbeatLoop.step] at hstep
    split_ifs at hstep with hcall
    obtain rfl := Option.some.inj hstep
    exact h.serve hnode hcall le_rfl

/-- As long as the bounds are kept, a member whose period fits into the timeout is alive. -/
theorem InTime.isAlive (hregular : x.Regular hashToInt cost pause timeout order)
    (hcost : ∀ i, 0 ≤ cost i) (hpause : 0 ≤ pause) (h : x.InTime cost pause order nodeId)
    (hfits : period cost pause order ≤ timeout) :
    x.cluster.manager.isAlive x.now nodeId = true := by
  obtain ⟨lastSeen, hseen, -, hleft⟩ := h
  have hnonneg : 0 ≤ remaining cost pause nodeId order x.phase :=
    remaining_nonneg hcost hpause hregular.timely
  rw [ClusterManager.isAlive, hseen, hregular.timeout]
  refine decide_eq_true ?_
  linarith

/-! ### A round that takes as long as it may -/

/-- From `x` to `y` the loop went on for some time, and no heartbeat of the member arrived. -/
structure Passes (hashToInt : String → ℕ) (cost : String → Time) (pause timeout : Time)
    (order : List String) (nodeId : String) (x : HeartbeatLoop V) (phase : Phase String)
    (duration : Time) (y : HeartbeatLoop V) : Prop where
  run : ∃ events, Run (TimelyStep hashToInt cost pause nodeId) x events y
  regular : y.Regular hashToInt cost pause timeout order
  answers : y.cluster.transport.Answers nodeId
  phase : y.phase = phase
  now : y.now = x.now + duration
  lastHeartbeat : y.cluster.manager.lastHeartbeat nodeId = x.cluster.manager.lastHeartbeat nodeId

variable {y z : HeartbeatLoop V} {phase phase' : Phase String} {duration duration' : Time}

theorem Passes.trans (h : Passes hashToInt cost pause timeout order nodeId x phase duration y)
    (h' : Passes hashToInt cost pause timeout order nodeId y phase' duration' z) :
    Passes hashToInt cost pause timeout order nodeId x phase' (duration + duration') z := by
  obtain ⟨events, hrun⟩ := h.run
  obtain ⟨events', hrun'⟩ := h'.run
  exact ⟨⟨events ++ events', hrun.append hrun'⟩, h'.regular, h'.answers, h'.phase,
    by rw [h'.now, h.now, add_assoc], h'.lastHeartbeat.trans h.lastHeartbeat⟩

theorem Passes.refl (h : x.Regular hashToInt cost pause timeout order)
    (hanswers : x.cluster.transport.Answers nodeId) :
    Passes hashToInt cost pause timeout order nodeId x x.phase 0 x :=
  ⟨⟨[], .nil x⟩, h, hanswers, rfl, (add_zero _).symm, rfl⟩

/-- A heartbeat of another member. -/
private theorem exists_passes_visit (hcost : ∀ i, 0 ≤ cost i) (hpause : 0 ≤ pause)
    (h : x.Regular hashToInt cost pause timeout order)
    (hanswers : x.cluster.transport.Answers nodeId) {other : String} {todo : List String}
    (hphase : x.phase = .between (other :: todo)) (hne : other ≠ nodeId) (hpos : 0 ≤ duration)
    (hle : duration ≤ cost other) :
    ∃ y, Passes hashToInt cost pause timeout order nodeId x (.between todo) duration y := by
  let asked : HeartbeatLoop V := { x with phase := .visiting other todo 0 }
  let waited : HeartbeatLoop V :=
    { asked with now := x.now + duration, phase := .visiting other todo (0 + duration) }
  let y : HeartbeatLoop V :=
    { waited with
      cluster := (waited.cluster.serve hashToInt (fun _ => waited.now) (.heartbeat other)).2
      phase := .between todo }
  have hask : x.TimelyStep hashToInt cost pause nodeId .ask asked :=
    ⟨by rw [HeartbeatLoop.step, hphase], trivial⟩
  have hwait : asked.TimelyStep hashToInt cost pause nodeId (.elapse duration) waited :=
    ⟨rfl, hpos, (zero_add duration).trans_le hle⟩
  have hbeat : waited.TimelyStep hashToInt cost pause nodeId .beat y := by
    refine ⟨rfl, fun todo' spent heq => ?_⟩
    obtain ⟨rfl, -, -⟩ := Phase.visiting.inj heq
    exact absurd rfl hne
  have hregular := ((h.step hcost hpause hask).step hcost hpause hwait).step hcost hpause hbeat
  obtain ⟨-, hkeeps, -, -⟩ := serve_heartbeat hashToInt waited.cluster (fun _ => waited.now) other
  exact ⟨y, ⟨_, .cons hask (.cons hwait (.single hbeat))⟩, hregular,
    hkeeps.toSameNodes.answers_iff.mpr hanswers, rfl, rfl,
    lastHeartbeat_heartbeat_of_ne _ (Ne.symm hne)⟩

/-- Heartbeats of other members. -/
private theorem exists_passes_visits (hcost : ∀ i, 0 ≤ cost i) (hpause : 0 ≤ pause)
    {durations : String → Time} (hpos : ∀ i, 0 ≤ durations i) (hle : ∀ i, durations i ≤ cost i)
    {others todo : List String} (hne : nodeId ∉ others)
    (h : x.Regular hashToInt cost pause timeout order)
    (hanswers : x.cluster.transport.Answers nodeId)
    (hphase : x.phase = .between (others ++ todo)) :
    ∃ y, Passes hashToInt cost pause timeout order nodeId x (.between todo)
      (others.map durations).sum y := by
  induction others generalizing x with
  | nil => exact ⟨x, hphase ▸ .refl h hanswers⟩
  | cons other others ih =>
    obtain ⟨y, hy⟩ := exists_passes_visit hcost hpause h hanswers hphase
      (fun heq => hne (heq ▸ List.mem_cons_self)) (hpos other) (hle other)
    obtain ⟨z, hz⟩ := ih (fun hmem => hne (List.mem_cons_of_mem _ hmem)) hy.regular hy.answers
      hy.phase
    exact ⟨z, hy.trans hz⟩

/-- The heartbeat of the member, at once. -/
private theorem exists_beat (hcost : ∀ i, 0 ≤ cost i) (hpause : 0 ≤ pause)
    (h : x.Regular hashToInt cost pause timeout order)
    (hanswers : x.cluster.transport.Answers nodeId) {todo : List String}
    (hphase : x.phase = .between (nodeId :: todo)) (hmember : nodeId ∈ order) :
    ∃ events y, Run (TimelyStep hashToInt cost pause nodeId) x events y ∧
      y.Regular hashToInt cost pause timeout order ∧ y.cluster.transport.Answers nodeId ∧
      y.phase = .between todo ∧ y.cluster.manager.lastHeartbeat nodeId = some y.now := by
  let asked : HeartbeatLoop V := { x with phase := .visiting nodeId todo 0 }
  let y : HeartbeatLoop V :=
    { asked with
      cluster := (x.cluster.serve hashToInt (fun _ => x.now) (.heartbeat nodeId)).2
      phase := .between todo }
  have hask : x.TimelyStep hashToInt cost pause nodeId .ask asked :=
    ⟨by rw [HeartbeatLoop.step, hphase], trivial⟩
  have hbeat : asked.TimelyStep hashToInt cost pause nodeId .beat y := ⟨rfl, fun _ _ _ => hanswers⟩
  have hnode : nodeId ∈ x.cluster.manager.nodes := by
    rw [OrderedDict.mem_def, h.nodes]
    exact hmember
  obtain ⟨node, hget⟩ := OrderedDict.mem_iff_exists_get?.mp hnode
  have hanswers' : x.cluster.transport.Answers node.nodeId := by
    rw [h.coherent.key_eq nodeId node hget]
    exact hanswers
  obtain ⟨-, hkeeps, -, -⟩ := serve_heartbeat hashToInt x.cluster (fun _ => x.now) nodeId
  refine ⟨_, y, .cons hask (.single hbeat),
    (h.step hcost hpause hask).step hcost hpause hbeat,
    hkeeps.toSameNodes.answers_iff.mpr hanswers, rfl, ?_⟩
  change (x.cluster.serve hashToInt (fun _ => x.now) (.heartbeat nodeId)).2.manager.lastHeartbeat
    nodeId = some x.now
  rw [manager_heartbeat _ hget hanswers']
  exact ClusterManager.lastHeartbeat_recordHeartbeat_self hnode

/-- The loop sleeps as long as it may. -/
private theorem exists_passes_sleep (hcost : ∀ i, 0 ≤ cost i) (hpause : 1 ≤ pause)
    (h : x.Regular hashToInt cost pause timeout order)
    (hanswers : x.cluster.transport.Answers nodeId) (hphase : x.phase = .between []) :
    ∃ y, Passes hashToInt cost pause timeout order nodeId x (.between order) pause y := by
  have hnonneg : 0 ≤ pause := zero_le_one.trans hpause
  let asleep : HeartbeatLoop V := { x with phase := .pausing 0 }
  let slept : HeartbeatLoop V := { asleep with now := x.now + pause, phase := .pausing (0 + pause) }
  let awake : HeartbeatLoop V := { slept with phase := .idle }
  let y : HeartbeatLoop V :=
    { awake with phase := .between (awake.cluster.manager.getAllNodes.map NodeConfig.nodeId) }
  have hsleep : x.TimelyStep hashToInt cost pause nodeId .sleep asleep :=
    ⟨by rw [HeartbeatLoop.step, hphase], trivial⟩
  have hwait : asleep.TimelyStep hashToInt cost pause nodeId (.elapse pause) slept :=
    ⟨rfl, hnonneg, (zero_add pause).le⟩
  have hwake : slept.TimelyStep hashToInt cost pause nodeId .wake awake :=
    ⟨if_pos (hpause.trans (zero_add pause).ge), trivial⟩
  have hbegin : awake.TimelyStep hashToInt cost pause nodeId .begin y := ⟨rfl, trivial⟩
  have hregular := ((h.step hcost hnonneg hsleep).step hcost hnonneg hwait).step hcost hnonneg hwake
  refine ⟨y, ⟨_, .cons hsleep (.cons hwait (.cons hwake (.single hbegin)))⟩,
    hregular.step hcost hnonneg hbegin, hanswers, ?_, rfl, rfl⟩
  exact congrArg Phase.between (h.coherent.map_nodeId_getAllNodes.trans h.nodes)

/-- After its heartbeat the member may have to wait for a whole period. -/
theorem exists_run_of_period (hcost : ∀ i, 0 ≤ cost i) (hpause : 1 ≤ pause)
    (h : x.Regular hashToInt cost pause timeout order) (hnodup : order.Nodup)
    (hmember : nodeId ∈ order) (hphase : x.phase = .idle)
    (hanswers : x.cluster.transport.Answers nodeId) :
    ∃ events y lastSeen, Run (TimelyStep hashToInt cost pause nodeId) x events y ∧
      y.Regular hashToInt cost pause timeout order ∧
      y.cluster.manager.lastHeartbeat nodeId = some lastSeen ∧
      y.now - lastSeen = period cost pause order := by
  have hnonneg : 0 ≤ pause := zero_le_one.trans hpause
  obtain ⟨first, last, rfl⟩ := List.append_of_mem hmember
  obtain ⟨-, hlast, hdisjoint⟩ := List.nodup_append.mp hnodup
  have hfirst : nodeId ∉ first := fun hmem => hdisjoint nodeId hmem nodeId List.mem_cons_self rfl
  -- the first round, up to the heartbeat of the member
  let begun : HeartbeatLoop V :=
    { x with phase := .between (x.cluster.manager.getAllNodes.map NodeConfig.nodeId) }
  have hbegin : x.TimelyStep hashToInt cost pause nodeId .begin begun :=
    ⟨by rw [HeartbeatLoop.step, hphase], trivial⟩
  have hbegun : begun.phase = .between (first ++ nodeId :: last) :=
    congrArg Phase.between (h.coherent.map_nodeId_getAllNodes.trans h.nodes)
  have hzero : ∀ i, (0 : Time) ≤ (fun _ : String => (0 : Time)) i := fun _ => le_rfl
  obtain ⟨a, ha⟩ := exists_passes_visits hcost hnonneg hzero hcost hfirst
    (h.step hcost hnonneg hbegin) hanswers hbegun
  obtain ⟨events, b, hbeat, hb, hbanswers, hbphase, hseen⟩ :=
    exists_beat hcost hnonneg ha.regular ha.answers ha.phase hmember
  -- the rest of the round, the sleep, and the next one up to the member
  have hrest : b.phase = .between (last ++ []) := by rw [hbphase, List.append_nil]
  obtain ⟨d, hd⟩ := exists_passes_visits hcost hnonneg hcost (fun _ => le_rfl)
    (List.nodup_cons.mp hlast).1 hb hbanswers hrest
  obtain ⟨e, he⟩ := exists_passes_sleep hcost hpause hd.regular hd.answers hd.phase
  obtain ⟨f, hf⟩ := exists_passes_visits hcost hnonneg hcost (fun _ => le_rfl) hfirst he.regular
    he.answers he.phase
  have hpassed := (hd.trans he).trans hf
  obtain ⟨before, hbefore⟩ := ha.run
  obtain ⟨after, hafter⟩ := hpassed.run
  let asked : HeartbeatLoop V := { f with phase := .visiting nodeId last 0 }
  let y : HeartbeatLoop V :=
    { asked with now := f.now + cost nodeId, phase := .visiting nodeId last (0 + cost nodeId) }
  have hask : f.TimelyStep hashToInt cost pause nodeId .ask asked :=
    ⟨by rw [HeartbeatLoop.step, hf.phase], trivial⟩
  have hwait : asked.TimelyStep hashToInt cost pause nodeId (.elapse (cost nodeId)) y :=
    ⟨rfl, hcost nodeId, (zero_add (cost nodeId)).le⟩
  refine ⟨_, y, b.now, (Run.cons hbegin hbefore).append (hbeat.append
    (hafter.append (.cons hask (.single hwait)))),
    (hf.regular.step hcost hnonneg hask).step hcost hnonneg hwait,
    hpassed.lastHeartbeat.trans hseen, ?_⟩
  change f.now + cost nodeId - b.now = _
  rw [hpassed.now, period, List.map_append, List.sum_append, List.map_cons, List.sum_cons]
  linarith

end HeartbeatLoop

/-- **When the heartbeat loop keeps a member alive.** The loop starts with all heartbeats at hand;
then client calls come at any moment and record heartbeats too. The heartbeats of a member take at
most its cost, with those that fail, and the sleep at most `pause`. A member that answers is alive
at every moment of every such run exactly if the costs of all members and the pause together fit
into the heartbeat timeout: one slow member, dead or not, has all others taken for dead. -/
theorem heartbeats_keep_alive_iff {hashToInt : String → ℕ} {cost : String → Time} {pause : Time}
    {nodeId : String} {x : HeartbeatLoop V} (hcost : ∀ i, 0 ≤ cost i) (hpause : 1 ≤ pause)
    (hcoherent : x.cluster.manager.Coherent hashToInt) (hphase : x.phase = .idle)
    (hmember : nodeId ∈ x.cluster.manager.nodes)
    (hseen : x.cluster.manager.lastHeartbeat nodeId = some x.now)
    (hanswers : x.cluster.transport.Answers nodeId) :
    (∀ events y, Run (HeartbeatLoop.TimelyStep hashToInt cost pause nodeId) x events y →
      y.cluster.manager.isAlive y.now nodeId = true) ↔
    period cost pause x.cluster.manager.nodes.keys ≤
      x.cluster.manager.heartbeatTimeoutSeconds := by
  have hnonneg : 0 ≤ pause := zero_le_one.trans hpause
  have hnodup := x.cluster.manager.nodes.keys_nodup
  have hregular : x.Regular hashToInt cost pause x.cluster.manager.heartbeatTimeoutSeconds
      x.cluster.manager.nodes.keys :=
    ⟨hcoherent, rfl, rfl, by rw [hphase]; trivial, by rw [hphase]; trivial⟩
  constructor
  · intro halive
    obtain ⟨events, y, lastSeen, hrun, hy, hlast, hage⟩ :=
      HeartbeatLoop.exists_run_of_period hcost hpause hregular hnodup hmember hphase hanswers
    have hfresh := halive events y hrun
    rw [ClusterManager.isAlive, hlast, hy.timeout] at hfresh
    rw [← hage]
    exact of_decide_eq_true hfresh
  · intro hfits events y hrun
    have hstart : x.InTime cost pause x.cluster.manager.nodes.keys nodeId := by
      refine ⟨x.now, hseen, le_rfl, ?_⟩
      rw [hphase, sub_self, zero_add]
      exact remaining_idle_le_period hcost hnonneg
    obtain ⟨hy, hend⟩ := hrun.invariant
      (I := fun z : HeartbeatLoop V =>
        z.Regular hashToInt cost pause x.cluster.manager.heartbeatTimeoutSeconds
            x.cluster.manager.nodes.keys ∧
          z.InTime cost pause x.cluster.manager.nodes.keys nodeId)
      (fun _ _ _ hz hstep => ⟨hz.1.step hcost hnonneg hstep, hz.2.step hz.1 hnodup hmember hstep⟩)
      ⟨hregular, hstart⟩
    exact hend.isAlive hy hcost hnonneg hfits

/-- A small cluster where the heartbeats of one member take almost as long as the timeout: the
other member is taken for dead. -/
theorem heartbeats_keep_alive_iff_slow_member :
    let x : HeartbeatLoop ℕ := ⟨sampleCluster ["a", "b"], 0, .idle⟩
    let cost : String → Time := fun nodeId => if nodeId = "b" then 9 / 2 else 0
    ∃ events y, Run (HeartbeatLoop.TimelyStep sampleHash cost 1 "a") x events y ∧
      y.cluster.manager.isAlive y.now "a" = false := by
  intro x cost
  have hcost : ∀ i, 0 ≤ cost i := by
    intro i
    by_cases hi : i = "b"
    · have hslow : cost i = 9 / 2 := if_pos hi
      rw [hslow]
      decide +kernel
    · exact (if_neg hi : cost i = 0).ge
  have hslow : ¬period cost 1 x.cluster.manager.nodes.keys ≤
      x.cluster.manager.heartbeatTimeoutSeconds := by decide +kernel
  have hanswers : x.cluster.transport.Answers "a" := by decide +kernel
  have hiff := heartbeats_keep_alive_iff (x := x) hcost le_rfl (sampleCluster_reachable _).coherent
    rfl (by decide +kernel) (by decide +kernel) hanswers
  by_contra hnone
  refine hslow (hiff.mp fun events y hrun => ?_)
  by_contra hdead
  exact hnone ⟨events, y, hrun, Bool.eq_false_iff.mpr hdead⟩

end DistributedCache
