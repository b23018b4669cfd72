import DistributedCache.Cluster.Calls
import DistributedCache.Cluster.Refinement

/-!
# The cluster as a key-value map

What a client of the cache relies on is a plain map from keys to values. A put, a get or a
delete that finds the live owners of its key with the value of the map answers as the map does,
and leaves them with the value of the map after it, once the replica write that it submitted
has taken effect.

## Main definitions

* `ClientOp`, `ClientOp.run` : the client calls about one key, and their meaning on a map.
* `Response.Is`, `Response.Reads` : a response says what the map answers.
* `DistributedCacheCluster.WorksWell` : a background step that does not fail and evicts nothing.

## Main results

* `DistributedCacheCluster.served` : a client call together with its replica write.
* `DistributedCacheCluster.drained` : a run that carries the replica write out.
-/

namespace DistributedCache

open Library

variable {V : Type*} {hashToInt : String → ℕ}

abbrev KeyValueMap (V : Type*) : Type _ := String → Option V

/-- The calls of a client about one key, with values other than `None` and without lifetimes. -/
inductive ClientOp (V : Type*)
  | put (key : String) (value : V)
  | get (key : String)
  | delete (key : String)

/-- What a client is told. -/
inductive Answer (V : Type*)
  | stored
  | found (value : V)
  | deleted
  | missing
  | unavailable

namespace ClientOp

def key : ClientOp V → String
  | .put key _ | .get key | .delete key => key

def call : ClientOp V → Call V
  | .put key value => .put key (some value) none
  | .get key => .get key
  | .delete key => .delete key

/-- The value of the key after the call, on a map. -/
def newValue (op : ClientOp V) (m : KeyValueMap V) : Option V :=
  match op with
  | .put _ value => some value
  | .get key => m key
  | .delete _ => none

/-- The answer of a map. -/
def answer (op : ClientOp V) (m : KeyValueMap V) : Answer V :=
  match op with
  | .put _ _ => .stored
  | .get key => (m key).elim .missing .found
  | .delete key => (m key).elim .missing fun _ => .deleted

/-- The map after the call. -/
def run (op : ClientOp V) (m : KeyValueMap V) : KeyValueMap V :=
  Function.update m op.key (op.newValue m)

end ClientOp

/-- The response tells the client the answer. -/
def Response.Is (r : Response V) : Answer V → Prop
  | .stored | .deleted => r.ok = true ∧ r.statusCode = 200
  | .found value => r.ok = true ∧ r.statusCode = 200 ∧ r.value = some (some value)
  | .missing => r.ok = false ∧ r.statusCode = 404
  | .unavailable => r.ok = false ∧ r.statusCode = 503

/-- The response to a get tells the value; a stored `None` reads as a missing key. -/
def Response.Reads (r : Response V) (value : Option V) : Prop :=
  r.value.join = value ∧ r.Is (value.elim .missing .found)

/-- The map after a call and its response: only an acknowledged call changes it. -/
def ClientOp.observe (op : ClientOp V) (r : Option (Response V)) (m : KeyValueMap V) :
    KeyValueMap V :=
  match r with
  | some r => if r.ok then op.run m else m
  | none => m

theorem ClientOp.observe_of_ok {op : ClientOp V} {r : Response V} (h : r.ok = true)
    (m : KeyValueMap V) : op.observe (some r) m = op.run m := by
  rw [observe, if_pos h]

theorem ClientOp.observe_of_not_ok {op : ClientOp V} {r : Response V} (h : r.ok = false)
    (m : KeyValueMap V) : op.observe (some r) m = m := by
  rw [observe, if_neg (by rw [h]; exact Bool.false_ne_true)]

theorem ClientOp.observe_of_ne {op : ClientOp V} {key : String} (h : key ≠ op.key)
    (r : Option (Response V)) (m : KeyValueMap V) : op.observe r m key = m key := by
  cases r with
  | none => rfl
  | some r =>
    rw [observe]
    split_ifs
    · exact Function.update_of_ne h _ _
    · rfl

theorem ClientOp.observe_get (key : String) (r : Option (Response V)) (m : KeyValueMap V) :
    (ClientOp.get key).observe r m = m := by
  have hrun : run (.get key) m = m := Function.update_eq_self key m
  cases r with
  | none => rfl
  | some r => rw [observe, hrun, ite_self]

/-- A call that answers as the map does is observed as the call on the map. -/
theorem ClientOp.observe_of_is {op : ClientOp V} {r : Response V} {m : KeyValueMap V}
    (h : r.Is (op.answer m)) : op.observe (some r) m = op.run m := by
  cases op with
  | put key value => exact observe_of_ok h.1 m
  | get key =>
    rw [observe_get]
    exact (Function.update_eq_self key m).symm
  | delete key =>
    rw [answer] at h
    cases hm : m key with
    | some v =>
      rw [hm] at h
      exact observe_of_ok h.1 m
    | none =>
      rw [hm] at h
      rw [observe_of_not_ok h.1]
      change m = Function.update m key none
      rw [← hm, Function.update_eq_self]

/-- A call that is refused for want of live owners is not acknowledged. -/
theorem ClientOp.observe_of_unavailable {op : ClientOp V} {r : Response V} {m : KeyValueMap V}
    (h : r.Is .unavailable) : op.observe (some r) m = m := observe_of_not_ok h.1 m

/-- The code of a response tells whether the cluster had a live owner. -/
theorem Response.statusCode_ne_of_is {r : Response V} {op : ClientOp V} {m : KeyValueMap V}
    (h : r.Is (op.answer m)) : r.statusCode ≠ 503 := by
  cases op with
  | put key value => rw [h.2]; decide
  | get key =>
    rw [ClientOp.answer] at h
    cases hm : m key with
    | none => rw [hm] at h; rw [h.2]; decide
    | some v => rw [hm] at h; rw [h.2.1]; decide
  | delete key =>
    rw [ClientOp.answer] at h
    cases hm : m key with
    | none => rw [hm] at h; rw [h.2]; decide
    | some v => rw [hm] at h; rw [h.2]; decide

/-- An entry of a value other than `None`, without lifetime. -/
def CacheEntry.plain (value : V) : CacheEntry V := ⟨some value, none⟩

/-- The background step does not fail. -/
def BackgroundStep.Succeeds : BackgroundStep → Prop
  | .replicate _ _ outcome | .snapshot _ _ outcome | .migrate _ _ _ outcome => outcome = .carriedOut
  | _ => True

instance : DecidablePred BackgroundStep.Succeeds
  | .replicate _ _ outcome | .snapshot _ _ outcome | .migrate _ _ _ outcome =>
    inferInstanceAs (Decidable (outcome = .carriedOut))
  | .begin _ | .plan _ _ _ | .cleanup _ _ => isTrue trivial

namespace DistributedCacheCluster

variable {c c' : DistributedCacheCluster V}

/-- The background loop takes a step without evicting an entry. -/
def Works (hashToInt : String → ℕ) (c : DistributedCacheCluster V) (s : BackgroundStep)
    (c' : DistributedCacheCluster V) : Prop :=
  c.NoEviction hashToInt (.background s) ∧ c.runBackground hashToInt s = some c'

/-- The background loop takes a step that does not fail, without evicting an entry. -/
def WorksWell (hashToInt : String → ℕ) (c : DistributedCacheCluster V) (s : BackgroundStep)
    (c' : DistributedCacheCluster V) : Prop :=
  s.Succeeds ∧ c.Works hashToInt s c'

section RunAll

variable (hashToInt : String → ℕ) (P : DistributedCacheCluster V → BackgroundStep → Prop)
  [∀ c s, Decidable (P c s)]

/-- The background steps one after another, where none fails or evicts an entry, and all meet the
condition `P`. -/
def runAllWhere (c : DistributedCacheCluster V) :
    List BackgroundStep → Option (DistributedCacheCluster V)
  | [] => some c
  | s :: steps =>
    if P c s ∧ s.Succeeds ∧ c.NoEviction hashToInt (.background s) then
      (c.runBackground hashToInt s).bind fun c' => runAllWhere c' steps
    else none

variable {hashToInt P}

theorem run_of_runAllWhere {steps : List BackgroundStep}
    (h : c.runAllWhere hashToInt P steps = some c') :
    Run (fun c s c' => P c s ∧ WorksWell hashToInt c s c') c steps c' := by
  induction steps generalizing c with
  | nil =>
    obtain rfl := Option.some.inj h
    exact .nil c
  | cons s steps ih =>
    rw [runAllWhere] at h
    split_ifs at h with hs
    obtain ⟨d, hd, h⟩ := Option.bind_eq_some_iff.mp h
    exact .cons ⟨hs.1, hs.2.1, hs.2.2, hd⟩ (ih h)

variable (hashToInt P)

/-- A run exists whose steps meet a condition and whose end passes a check, if the executed steps
do. -/
theorem exists_run_where (c : DistributedCacheCluster V) (steps : List BackgroundStep)
    (p : DistributedCacheCluster V → Bool)
    (h : (c.runAllWhere hashToInt P steps).any p = true) :
    ∃ c', Run (fun c s c' => P c s ∧ WorksWell hashToInt c s c') c steps c' ∧ p c' = true := by
  obtain ⟨c', hc', hp⟩ := (Option.any_eq_true p _).mp h
  exact ⟨c', run_of_runAllWhere hc', hp⟩

end RunAll

/-- The background steps one after another, where none fails or evicts an entry. -/
def runAll (hashToInt : String → ℕ) (c : DistributedCacheCluster V)
    (steps : List BackgroundStep) : Option (DistributedCacheCluster V) :=
  c.runAllWhere hashToInt (fun _ _ => True) steps

/-- A run exists whose end passes a check, if the executed steps pass it. -/
theorem exists_run (hashToInt : String → ℕ) (c : DistributedCacheCluster V)
    (steps : List BackgroundStep) (p : DistributedCacheCluster V → Bool)
    (h : (c.runAll hashToInt steps).any p = true) :
    ∃ c', Run (WorksWell hashToInt) c steps c' ∧ p c' = true := by
  obtain ⟨c', hrun, hp⟩ := exists_run_where hashToInt (fun _ _ => True) c steps p h
  exact ⟨c', hrun.mono fun _ _ _ hs => hs.2, hp⟩

/-! ### The replica write of a call -/

/-- Once all rebalances have ended, the loop has only replica writes and cleanups to do. -/
theorem runBackground_of_done (hdone : ∀ task ∈ c.rebalances, task.Done) {s : BackgroundStep}
    (h : c.runBackground hashToInt s = some c') :
    (∃ index clock outcome, s = .replicate index clock outcome) ∨
      ∃ nodeId now, s = .cleanup nodeId now := by
  have hphase : ∀ {index : ℕ} {task : RebalanceTask V}, c.rebalances[index]? = some task →
      ∃ ring, task.phase = .migrating ring [] := fun htask =>
    done_iff.mp (hdone _ (List.mem_of_getElem? htask))
  cases s with
  | replicate index clock outcome => exact Or.inl ⟨index, clock, outcome, rfl⟩
  | cleanup nodeId now => exact Or.inr ⟨nodeId, now, rfl⟩
  | begin index =>
    obtain ⟨task, htask, hsubmitted, -⟩ := runBackground_begin h
    obtain ⟨ring, hdone⟩ := hphase htask
    rw [hdone] at hsubmitted
    cases hsubmitted
  | snapshot index now outcome =>
    obtain ⟨task, ring, node, todo, snapshots, htask, hcollecting, -⟩ := runBackground_snapshot h
    obtain ⟨ring, hdone⟩ := hphase htask
    rw [hdone] at hcollecting
    cases hcollecting
  | plan index now clock =>
    obtain ⟨task, ring, snapshots, htask, hcollecting, -⟩ := runBackground_plan h
    obtain ⟨ring, hdone⟩ := hphase htask
    rw [hdone] at hcollecting
    cases hcollecting
  | migrate index i clock outcome =>
    obtain ⟨task, ring, pending, call, htask, hmigrating, hcall, -⟩ := runBackground_migrate h
    obtain ⟨ring, hdone⟩ := hphase htask
    rw [hdone] at hmigrating
    obtain ⟨-, rfl⟩ := RebalancePhase.migrating.inj hmigrating
    cases hcall

/-- The entries with the submitted replica writes in effect. -/
def landed (c : DistributedCacheCluster V) (n k : String) : Option (CacheEntry V) :=
  match c.replicaWrites.find? fun w => w.node.nodeId = n ∧ w.key = k with
  | some w => some ⟨w.value, none⟩
  | none => c.transport.lookup n k

/-- The background loop, with at most one replica write to do, will have it in effect. -/
structure Draining (c₀ c : DistributedCacheCluster V) : Prop where
  manager : c.manager = c₀.manager
  sameNodes : c₀.transport.SameNodes c.transport
  noTtl : c.NoTtl
  rebalances : c.rebalances = c₀.rebalances
  replicaWrites : c.replicaWrites.Sublist c₀.replicaWrites
  landed : ∀ n k, c.landed n k = c₀.landed n k

theorem Draining.refl (h : c.NoTtl) : Draining c c :=
  ⟨rfl, .refl _, h, rfl, List.Sublist.refl _, fun _ _ => rfl⟩

theorem Draining.step {c₀ : DistributedCacheCluster V} (h : Draining c₀ c)
    (hdone : ∀ task ∈ c₀.rebalances, task.Done) (hone : c₀.replicaWrites.length ≤ 1)
    (hanswers : ∀ w ∈ c₀.replicaWrites, c₀.transport.Answers w.node.nodeId) {s : BackgroundStep}
    (hs : c.WorksWell hashToInt s c') : Draining c₀ c' := by
  obtain ⟨hsucceeds, hroom, hrun⟩ := hs
  rw [← h.rebalances] at hdone
  rcases runBackground_of_done hdone hrun with ⟨index, clock, outcome, rfl⟩ | ⟨nodeId, now, rfl⟩
  · obtain ⟨w, hw, rfl⟩ := runBackground_replicate hrun
    obtain rfl : outcome = .carriedOut := hsucceeds
    have hmem := List.mem_of_getElem? hw
    have hlist : c.replicaWrites = [w] := by
      have hlength := h.replicaWrites.length_le.trans hone
      cases hws : c.replicaWrites with
      | nil =>
        rw [hws] at hmem
        cases hmem
      | cons w' ws =>
        obtain rfl : ws = [] := by simpa [hws] using hlength
        rw [hws, List.mem_singleton] at hmem
        rw [hmem]
    have hsame : c.transport.Answers w.node.nodeId :=
      h.sameNodes.answers_iff.mpr (hanswers w (h.replicaWrites.subset hmem))
    have hwrites : c.transport.Writes w.node.nodeId w.key (some ⟨w.value, none⟩)
        (c.transport.limitedPut clock .carriedOut w.node w.key w.value w.ttlSeconds) := by
      have hroom' : c.transport.HasRoom w.node.nodeId w.key :=
        hroom (w.node.nodeId, w.key) (by rw [putCell, hw]; rfl)
      rw [h.noTtl.replicaWrites w hmem]
      rcases NodeTransport.limitedPut_eq clock (fun _ => hroom') w.value with
        ⟨-, -, hwrites⟩ | ⟨hfail, -⟩
      · exact hwrites
      · exact absurd ⟨rfl, hsame⟩ hfail
    refine ⟨h.manager, h.sameNodes.trans hwrites.toSameNodes,
      ⟨h.noTtl.transport.writes hwrites fun e he => by rw [← Option.some.inj he],
        fun w' hw' => h.noTtl.replicaWrites w' (List.mem_of_mem_eraseIdx hw'),
        h.noTtl.rebalances⟩,
      h.rebalances, (List.eraseIdx_sublist _ _).trans h.replicaWrites, fun n k => ?_⟩
    obtain rfl : index = 0 := by
      have hlt := (List.getElem?_eq_some_iff.mp hw).1
      rw [hlist] at hlt
      simpa using hlt
    rw [← h.landed]
    simp only [DistributedCacheCluster.landed, hlist, hwrites.lookup, List.eraseIdx_cons_zero,
      List.find?_nil, List.find?_cons]
    by_cases hcell : w.node.nodeId = n ∧ w.key = k
    · rw [if_pos ⟨hcell.1.symm, hcell.2.symm⟩]
      simp [hcell]
    · rw [if_neg fun heq => hcell ⟨heq.1.symm, heq.2.symm⟩]
      simp [hcell]
  · obtain rfl := Option.some.inj hrun
    have hkeeps := NodeTransport.keeps_cleanup h.noTtl.transport now nodeId
    refine ⟨h.manager, h.sameNodes.trans hkeeps.toSameNodes,
      ⟨h.noTtl.transport.keeps hkeeps, h.noTtl.replicaWrites, h.noTtl.rebalances⟩, h.rebalances,
      h.replicaWrites, fun n k => ?_⟩
    rw [← h.landed]
    simp only [DistributedCacheCluster.landed, hkeeps.lookup]

/-- A background run without failures that leaves no replica write has had it take effect. -/
theorem drained {steps : List BackgroundStep} (hrun : Run (WorksWell hashToInt) c steps c')
    (hnoTtl : c.NoTtl) (hdone : ∀ task ∈ c.rebalances, task.Done)
    (hone : c.replicaWrites.length ≤ 1)
    (hanswers : ∀ w ∈ c.replicaWrites, c.transport.Answers w.node.nodeId)
    (hempty : c'.replicaWrites = []) :
    c'.manager = c.manager ∧ c.transport.SameNodes c'.transport ∧ c'.NoTtl ∧
      c'.rebalances = c.rebalances ∧ ∀ n k, c'.transport.lookup n k = c.landed n k := by
  have h : Draining c c' := hrun.invariant (I := Draining c)
    (fun _ _ _ hd hs => hd.step hdone hone hanswers hs) (.refl hnoTtl)
  refine ⟨h.manager, h.sameNodes, h.noTtl, h.rebalances, fun n k => ?_⟩
  rw [← h.landed, landed, hempty]
  rfl

/-! ### A call and its replica write -/

/-- The manager of a cluster after a client call: at most a heartbeat was recorded. -/
def HeartbeatOnly (m m' : ClusterManager) : Prop :=
  m' = m ∨ ∃ now nodeId, m' = m.recordHeartbeat now nodeId

theorem HeartbeatOnly.nodes {m m' : ClusterManager} (h : HeartbeatOnly m m') :
    m'.nodes = m.nodes := by
  rcases h with rfl | ⟨now, nodeId, rfl⟩ <;> simp

theorem HeartbeatOnly.ring {m m' : ClusterManager} (h : HeartbeatOnly m m') :
    m'.ring = m.ring := by
  rcases h with rfl | ⟨now, nodeId, rfl⟩ <;> simp

theorem HeartbeatOnly.coherent {m m' : ClusterManager} (h : HeartbeatOnly m m')
    (hm : m.Coherent hashToInt) : m'.Coherent hashToInt := by
  rcases h with rfl | ⟨now, nodeId, rfl⟩
  · exact hm
  · exact hm.recordHeartbeat now nodeId

/-- A heartbeat, whether the node answers or not, changes no entry. -/
theorem serve_heartbeat (hashToInt : String → ℕ)
    (c : DistributedCacheCluster V) (clock : Clock) (nodeId : String) :
    HeartbeatOnly c.manager (c.serve hashToInt clock (.heartbeat nodeId)).2.manager ∧
      c.transport.Keeps (c.serve hashToInt clock (.heartbeat nodeId)).2.transport ∧
      (c.serve hashToInt clock (.heartbeat nodeId)).2.replicaWrites = c.replicaWrites ∧
      (c.serve hashToInt clock (.heartbeat nodeId)).2.rebalances = c.rebalances := by
  rw [serve, heartbeat]
  cases c.manager.getNode nodeId with
  | none => exact ⟨Or.inl rfl, .refl _, rfl, rfl⟩
  | some node =>
    dsimp only
    by_cases hanswers : c.transport.Answers node.nodeId
    · obtain ⟨transport, hbeat, hkeeps⟩ := NodeTransport.heartbeat_eq hanswers (clock 0)
      rw [hbeat]
      exact ⟨Or.inr ⟨_, _, rfl⟩, hkeeps, rfl, rfl⟩
    · rw [NodeTransport.heartbeat, NodeTransport.runtime?_eq_none hanswers, Option.map_none]
      exact ⟨Or.inl rfl, .refl _, rfl, rfl⟩

/-- What a client call did to a cluster without background work, when the live owners of its key
held the value of the map `m`: it told the map's answer, and once the replica write that it
submitted has landed, the live owners hold the new value of the map. -/
structure Served (hashToInt : String → ℕ) (alive : String → Bool) (m : KeyValueMap V)
    (op : ClientOp V) (c : DistributedCacheCluster V) (r : Response V)
    (c' : DistributedCacheCluster V) : Prop where
  unavailable : c.manager.liveOwners hashToInt alive op.key = [] → r.Is .unavailable
  answer : c.manager.liveOwners hashToInt alive op.key ≠ [] → r.Is (op.answer m)
  manager : HeartbeatOnly c.manager c'.manager
  sameNodes : c.transport.SameNodes c'.transport
  noTtl : c'.NoTtl
  rebalances : c'.rebalances = c.rebalances
  rebalanceFuture : c'.rebalanceFuture = c.rebalanceFuture
  replicaWrites : c'.replicaWrites.length ≤ 1
  replicaTargets : ∀ w ∈ c'.replicaWrites,
    w.node ∈ c.manager.liveOwners hashToInt alive op.key ∧ w.key = op.key
  landed : ∀ n k, c'.landed n k =
    if k = op.key ∧ n ∈ (c.manager.liveOwners hashToInt alive op.key).map NodeConfig.nodeId then
      (op.newValue m).map CacheEntry.plain
    else c.transport.lookup n k

section Serve

variable {clock : Clock} {alive : String → Bool} {m : KeyValueMap V} {key : String}

private theorem landed_of_nil (h : c.replicaWrites = []) (n k : String) :
    c.landed n k = c.transport.lookup n k := by
  rw [landed, h]
  rfl

private theorem served_put (hnoTtl : c.NoTtl) (hidle : c.replicaWrites = [])
    (hsteady : c.manager.Steady hashToInt clock alive key)
    (hanswers : ∀ node ∈ c.manager.liveOwners hashToInt alive key,
      c.transport.Answers node.nodeId) {value : V}
    (hroom : c.NoEviction hashToInt (.call clock (.put key (some value) none))) :
    ∃ r c', c.put hashToInt clock key (some value) none = (some r, c') ∧
      Served hashToInt alive m (.put key value) c r c' := by
  cases hlive : c.manager.liveOwners hashToInt alive key with
  | nil =>
    refine ⟨noLiveNodes, c, put_unavailable hsteady hlive _ _, fun _ => ⟨rfl, rfl⟩,
      fun h => absurd hlive h, Or.inl rfl, .refl _, hnoTtl, rfl, rfl, by simp [hidle],
      by simp [hidle], fun n k => ?_⟩
    rw [landed_of_nil hidle, ClientOp.key, hlive]
    simp
  | cons target rest =>
    have hcell : c.transport.HasRoom target.nodeId key :=
      hroom (target.nodeId, key) (by rw [putCell, servedBy_eq_some hsteady hlive]; rfl)
    rw [hlive] at hanswers
    obtain ⟨transport, hput, hwrites⟩ := put_eq hsteady hlive
      (hanswers target List.mem_cons_self) hcell (some value)
    have htail := ClusterManager.liveOwners_tail hlive
    refine ⟨_, _, hput, fun h => absurd h (by simp [ClientOp.key, hlive]),
      fun _ => ⟨rfl, rfl⟩, Or.inr ⟨_, _, rfl⟩, hwrites.toSameNodes,
      ⟨hnoTtl.transport.writes hwrites fun e he => by rw [← Option.some.inj he], ?_,
        hnoTtl.rebalances⟩, rfl, rfl, ?_, ?_, fun n k => ?_⟩
    · intro w hw
      rw [hidle, List.nil_append, List.mem_map] at hw
      obtain ⟨node, -, rfl⟩ := hw
      rfl
    · rw [hidle, List.nil_append, List.length_map, htail]
      cases rest.head? <;> simp
    · intro w hw
      rw [hidle, List.nil_append, List.mem_map] at hw
      obtain ⟨node, hnode, rfl⟩ := hw
      exact ⟨by simp [ClientOp.key, hlive, hnode], rfl⟩
    · rw [landed, hidle, List.nil_append, ClientOp.key, hlive, htail]
      simp only [hwrites.lookup]
      by_cases hk : k = key
      · cases rest.head? with
        | none =>
          by_cases hn : n = target.nodeId <;> simp [hk, hn, ClientOp.newValue, CacheEntry.plain]
        | some replica =>
          by_cases hr : replica.nodeId = n
          · simp [hk, hr, ClientOp.newValue, CacheEntry.plain]
          · by_cases hn : n = target.nodeId
            · have hr' : replica.nodeId ≠ target.nodeId := hn ▸ hr
              simp [hk, hn, hr', ClientOp.newValue, CacheEntry.plain]
            · simp [hk, hn, hr, Ne.symm hr]
      · cases rest.head? <;> simp [hk, Ne.symm hk]

private theorem served_get (hnoTtl : c.NoTtl) (hidle : c.replicaWrites = [])
    (hsteady : c.manager.Steady hashToInt clock alive key)
    (hanswers : ∀ node ∈ c.manager.liveOwners hashToInt alive key,
      c.transport.Answers node.nodeId)
    (hmirror : ∀ node ∈ c.manager.liveOwners hashToInt alive key,
      c.transport.lookup node.nodeId key = (m key).map CacheEntry.plain) :
    ∃ r c', c.get hashToInt clock key = (some r, c') ∧
      Served hashToInt alive m (.get key) c r c' := by
  have hkept : ∀ n k, c.transport.lookup n k =
      if k = key ∧ n ∈ (c.manager.liveOwners hashToInt alive key).map NodeConfig.nodeId then
        (m key).map CacheEntry.plain
      else c.transport.lookup n k := by
    intro n k
    split_ifs with hcell
    · obtain ⟨node, hnode, rfl⟩ := List.mem_map.mp hcell.2
      rw [hcell.1, hmirror node hnode]
    · rfl
  cases hlive : c.manager.liveOwners hashToInt alive key with
  | nil =>
    refine ⟨noLiveNodes, c, get_unavailable hsteady hlive, fun _ => ⟨rfl, rfl⟩,
      fun h => absurd hlive h, Or.inl rfl, .refl _, hnoTtl, rfl, rfl, by simp [hidle],
      by simp [hidle], fun n k => ?_⟩
    rw [landed_of_nil hidle]
    exact hkept n k
  | cons target rest =>
    rw [hlive] at hanswers hmirror
    obtain ⟨manager, transport, hget, hmanager, hkeeps⟩ :=
      get_eq hsteady hlive hanswers hnoTtl.transport
    have hcopy : getResponse (c.liveCopy hashToInt alive key) =
        getResponse ((m key).map fun v => (target.nodeId, v)) := by
      rw [liveCopy, hlive, List.findSome?_cons, hmirror target List.mem_cons_self]
      cases hm : m key with
      | some v => rfl
      | none =>
        rw [ClusterManager.liveOwners_tail hlive]
        cases hrest : rest.head? with
        | none => rfl
        | some replica =>
          have hreplica := hmirror replica
            (List.mem_cons_of_mem _ (List.mem_of_head? hrest))
          simp [hreplica, hm]
    rw [hcopy] at hget
    refine ⟨_, _, hget, fun h => absurd h (by simp [ClientOp.key, hlive]), fun _ => ?_,
      hmanager.imp_right (Exists.imp fun now h => ⟨_, h⟩), hkeeps.toSameNodes,
      ⟨hnoTtl.transport.keeps hkeeps, hnoTtl.replicaWrites, hnoTtl.rebalances⟩, rfl, rfl,
      by simp [hidle], by simp [hidle], fun n k => ?_⟩
    · rw [ClientOp.answer]
      cases m key with
      | none => exact ⟨rfl, rfl⟩
      | some v => exact ⟨rfl, rfl, rfl⟩
    · rw [landed, hidle]
      exact (hkeeps.lookup n k).trans (hkept n k)

private theorem served_delete (hnoTtl : c.NoTtl) (hidle : c.replicaWrites = [])
    (hsteady : c.manager.Steady hashToInt clock alive key)
    (hanswers : ∀ node ∈ c.manager.liveOwners hashToInt alive key,
      c.transport.Answers node.nodeId)
    (hmirror : ∀ node ∈ c.manager.liveOwners hashToInt alive key,
      c.transport.lookup node.nodeId key = (m key).map CacheEntry.plain) :
    ∃ r c', c.delete hashToInt clock key = (some r, c') ∧
      Served hashToInt alive m (.delete key) c r c' := by
  cases hlive : c.manager.liveOwners hashToInt alive key with
  | nil =>
    refine ⟨noLiveNodes, c, delete_unavailable hsteady hlive, fun _ => ⟨rfl, rfl⟩,
      fun h => absurd hlive h, Or.inl rfl, .refl _, hnoTtl, rfl, rfl, by simp [hidle],
      by simp [hidle], fun n k => ?_⟩
    rw [landed_of_nil hidle, ClientOp.key, hlive]
    simp
  | cons target rest =>
    rw [hlive] at hanswers hmirror
    have htarget := hmirror target List.mem_cons_self
    cases hm : m key with
    | none =>
      rw [hm, Option.map_none] at htarget hmirror
      obtain ⟨message, transport, hdelete, hkeeps⟩ := delete_eq_of_missing hsteady hlive
        (hanswers target List.mem_cons_self) htarget
      refine ⟨_, _, hdelete, fun h => absurd h (by simp [ClientOp.key, hlive]), fun _ => ?_,
        Or.inl rfl, hkeeps.toSameNodes,
        ⟨hnoTtl.transport.keeps hkeeps, hnoTtl.replicaWrites, hnoTtl.rebalances⟩, rfl, rfl,
        by simp [hidle], by simp [hidle], fun n k => ?_⟩
      · rw [ClientOp.answer, hm]
        exact ⟨rfl, rfl⟩
      · rw [landed, hidle, ClientOp.key, hlive]
        refine (hkeeps.lookup n k).trans ?_
        split_ifs with hcell
        · obtain ⟨node, hnode, rfl⟩ := List.mem_map.mp hcell.2
          rw [hcell.1, hmirror node hnode]
          rfl
        · rfl
    | some v =>
      obtain ⟨transport, hdelete, hsame, hlookup⟩ := delete_eq_of_found hsteady hlive hanswers
        (by rw [htarget, hm]; rfl)
      have hnoTtl' : transport.NoTtl := by
        intro n k e he
        rw [hlookup] at he
        split_ifs at he
        exact hnoTtl.transport n k e he
      refine ⟨_, _, hdelete, fun h => absurd h (by simp [ClientOp.key, hlive]), fun _ => ?_,
        Or.inl rfl, hsame, ⟨hnoTtl', hnoTtl.replicaWrites, hnoTtl.rebalances⟩, rfl, rfl,
        by simp [hidle], by simp [hidle], fun n k => ?_⟩
      · rw [ClientOp.answer, hm]
        exact ⟨rfl, rfl⟩
      · rw [landed, hidle, ClientOp.key, hlive]
        exact hlookup n k

/-- A client call on a cluster without background work answers as the map does. -/
theorem served (op : ClientOp V) (hnoTtl : c.NoTtl) (hidle : c.replicaWrites = [])
    (hsteady : c.manager.Steady hashToInt clock alive op.key)
    (hanswers : ∀ node ∈ c.manager.liveOwners hashToInt alive op.key,
      c.transport.Answers node.nodeId)
    (hroom : c.NoEviction hashToInt (.call clock op.call))
    (hmirror : ∀ node ∈ c.manager.liveOwners hashToInt alive op.key,
      c.transport.lookup node.nodeId op.key = (m op.key).map CacheEntry.plain) :
    ∃ r c', c.serve hashToInt clock op.call = (some r, c') ∧
      Served hashToInt alive m op c r c' := by
  cases op with
  | put key value => exact served_put hnoTtl hidle hsteady hanswers hroom
  | get key => exact served_get hnoTtl hidle hsteady hanswers hmirror
  | delete key => exact served_delete hnoTtl hidle hsteady hanswers hmirror

end Serve

end DistributedCacheCluster

end DistributedCache
