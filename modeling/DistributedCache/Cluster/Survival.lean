import DistributedCache.Cluster.Topology

/-!
# What survives a rebalance

The planner never deletes from a new owner, and whatever it writes it has seen. So a copy on a
new owner survives, however the calls of the rebalance are ordered and whichever of them fail.
After a change without collisions some old owner is a new owner, and keys that were placed on
their owners stay readable throughout. Nothing protects a copy that only nodes hold that are no
owners afterwards: a removed node is not read, and the deletes of the planner do not wait for
its puts.

## Main results

* `DistributedCacheCluster.reads_stay_available` : reads while a rebalance is at work.
* `DistributedCacheCluster.removal_keeps_readable` : a removal, when a copy is left behind.
* `DistributedCacheCluster.last_copy_survives_iff` : when a rebalance cannot destroy all copies.
-/

namespace DistributedCache

open Library Library.Relocation

variable {V : Type*} {hashToInt : String → ℕ}

namespace DistributedCacheCluster

variable {c c' : DistributedCacheCluster V} {clock clock' : Clock} {call : Call V}
  {ids : Set String} {key : String}

/-! ### Reads while a rebalance is at work -/

/-- While a rebalance is at work, a get reads a copy that an owner had at first, when no member
had another one. -/
theorem Rebalancing.get_reads {c₀ c₁ : DistributedCacheCluster V} {succeeds : Prop}
    (h : Rebalancing hashToInt succeeds c₀ c₁ c) (halive : c.AllAlive clock) {node : NodeConfig}
    (hnode : node ∈ c₁.manager.ring.owners hashToInt key) {entry : CacheEntry V}
    (hentry : c₁.transport.lookup node.nodeId key = some entry)
    (hagree : ∀ nodeId ∈ c₁.manager.nodes, c₁.transport.lookup nodeId key = none ∨
      c₁.transport.lookup nodeId key = some entry) :
    ∃ r, (c.get hashToInt clock key).1 = some r ∧ r.Reads entry.value := by
  have howner : node ∈ c.manager.ring.owners hashToInt key := by rwa [h.ring]
  refine h.healthy.get_reads halive howner (h.lookup_of_owner hnode hentry) fun x hx =>
    h.agree hagree ?_
  rw [← h.nodes]
  exact h.healthy.mem_of_mem_owners hx

/-- **Reads stay available during a rebalance.** When a key is held by exactly its owners and all
members are alive, then after a node joined without the key, or a member left that is not the
last one, every get reads the value, at every moment of the rebalance, in whatever order its
calls are carried out and whichever of them fail. -/
theorem reads_stay_available (hrest : c.AtRest hashToInt ids)
    (hcf : NoCollision hashToInt c.manager.ring.replicas ids) {member : String}
    (hmember : member ∈ c.manager.nodes) {entry : CacheEntry V}
    (hplaced : c.Placed hashToInt key (some entry)) (hcall : c.Rearranges ids clock call)
    (hwithout : c.JoinsWithout clock key call) {steps : List BackgroundStep}
    (hrun : Run (Works hashToInt) (c.serve hashToInt clock call).2 steps c')
    (halive : c'.AllAlive clock') :
    ∃ r, (c'.get hashToInt clock' key).1 = some r ∧ r.Reads entry.value := by
  have hrebalancing := (hcall.rearranged hrest).rebalancing.run hrun
  have hlookup : ∀ nodeId ∈ (c.serve hashToInt clock call).2.manager.nodes,
      (c.serve hashToInt clock call).2.transport.lookup nodeId key =
        if nodeId ∈ c.manager.ring.ownerIds hashToInt key then some entry else none :=
    fun nodeId hn => hcall.lookup_of_placed hrest.manager.coherent hplaced hwithout hn
  obtain ⟨kept, hold, hnew⟩ := hcall.exists_kept_owner hrest.manager hcf hmember key
  have hkept : kept.nodeId ∈ (c.serve hashToInt clock call).2.manager.nodes :=
    (hcall.rearranged hrest).healthy.mem_of_mem_owners hnew
  refine hrebalancing.get_reads halive hnew ?_ fun nodeId hn => ?_
  · rw [hlookup _ hkept]
    exact if_pos (List.mem_map_of_mem hold)
  · rw [hlookup _ hn]
    split_ifs
    · exact Or.inr rfl
    · exact Or.inl rfl

/-- `reads_stay_available` after `"n"` joined `"a"` and `"b"`, when the old replica has lost its
copy and the new primary has none yet. -/
theorem reads_stay_available_node_joins :
    let c := sampleHolding ["a", "b"] ["a", "b"]
    ∃ c', Run (Works sampleHash)
        (c.serve sampleHash (fun _ => 0) (.addNode (sampleNode "n") none)).2
        [.begin 0, .snapshot 0 0 .carriedOut, .snapshot 0 0 .carriedOut,
          .snapshot 0 0 .carriedOut, .plan 0 0 fun _ _ => 0,
          .migrate 0 1 (fun _ => 0) .carriedOut] c' ∧
      c'.transport.lookup "b" "k" = none ∧ c'.transport.lookup "n" "k" = none ∧
      ∃ r, (c'.get sampleHash (fun _ => 0) "k").1 = some r ∧ r.Reads (some 1) := by
  intro c
  obtain ⟨c', hrun, hc'⟩ := exists_run sampleHash
    (c.serve sampleHash (fun _ => 0) (.addNode (sampleNode "n") none)).2
    [.begin 0, .snapshot 0 0 .carriedOut, .snapshot 0 0 .carriedOut,
      .snapshot 0 0 .carriedOut, .plan 0 0 fun _ _ => 0,
      .migrate 0 1 (fun _ => 0) .carriedOut]
    (fun c' => decide (c'.transport.lookup "b" "k" = none ∧
      c'.transport.lookup "n" "k" = none ∧
      ∀ nodeId ∈ c'.manager.nodes.keys, c'.manager.isAlive 0 nodeId = true))
    (by decide +kernel)
  obtain ⟨hb, hn, halive⟩ := of_decide_eq_true hc'
  have hworks : Run (Works sampleHash) _ _ c' := hrun.mono fun _ _ _ hs => hs.2
  refine ⟨c', hworks, hb, hn, ?_⟩
  have hrest : c.AtRest sampleHash {"m", "n", "a", "b", "c"} :=
    sampleHolding_atRest _ _ (by simp)
  have hjoins : c.Joins (fun _ => 0) (sampleNode "n") none :=
    ⟨by decide +kernel, by decide +kernel, fun k entry hentry => by cases hentry⟩
  have hmember : "a" ∈ c.manager.nodes := by decide +kernel
  exact reads_stay_available hrest sampleHash_noCollision hmember sampleHolding_placed
    (.addNode (by simp [sampleNode]) hjoins) rfl hworks (allAlive_const halive)

/-! ### Removals -/

/-- **A removal loses nothing readable that a remaining owner holds.** When only owners hold
copies of a key, the copies agree, and some node other than the one that leaves has a copy, then
a key that was readable before the removal is readable at every moment of its rebalance and
after it, whatever fails. -/
theorem removal_keeps_readable (hrest : c.AtRest hashToInt ids) {nodeId : String}
    (hmember : nodeId ∈ c.manager.nodes) {entry : CacheEntry V}
    (hagree : ∀ n ∈ c.manager.nodes, c.transport.lookup n key = none ∨
      n ∈ c.manager.ring.ownerIds hashToInt key ∧ c.transport.lookup n key = some entry)
    (hother : ∃ n ∈ c.manager.nodes, n ≠ nodeId ∧ c.transport.lookup n key ≠ none)
    (halive : c.AllAlive clock) {v : V}
    (hget : ∃ r, (c.get hashToInt clock key).1 = some r ∧ r.Is (.found v)) {now : Clock}
    {steps : List BackgroundStep}
    (hrun : Run (Works hashToInt) (c.serve hashToInt now (.removeNode nodeId)).2 steps c')
    (halive' : c'.AllAlive clock') :
    ∃ r, (c'.get hashToInt clock' key).1 = some r ∧ r.Is (.found v) := by
  obtain ⟨n, hn, hne, hcopy⟩ := hother
  obtain ⟨howner, hentry⟩ := (hagree n hn).resolve_left hcopy
  obtain ⟨node, hnode, rfl⟩ := (ConsistentHashRing.mem_ownerIds hashToInt).mp howner
  have hmem : ∀ {x : NodeConfig}, x ∈ c.manager.ring.owners hashToInt key →
      x.nodeId ∈ c.manager.nodes := fun hx => hrest.healthy.mem_of_mem_owners hx
  -- what the get before the removal read is the value of the entry
  have hvalue : entry.value = some v := by
    obtain ⟨r, hr, his⟩ := hget
    obtain ⟨r', hr', hreads, -⟩ := hrest.healthy.get_reads halive hnode hentry fun x hx =>
      (hagree x.nodeId (hmem hx)).imp_right And.right
    obtain rfl := Option.some.inj (hr.symm.trans hr')
    rw [← hreads, his.2.2, Option.join_some]
  have hcall : c.Rearranges ids now (.removeNode nodeId) := .removeNode hmember ⟨_, hn, hne⟩
  have hafter := hcall.rearranged hrest
  have hlookup : ∀ x, (c.serve hashToInt now (.removeNode nodeId)).2.transport.lookup x key =
      c.transport.lookup x key := fun x => by
    rw [removeNode_eq hmember]
    rfl
  have hnew : node ∈ (c.serve hashToInt now (.removeNode nodeId)).2.manager.ring.owners
      hashToInt key := by
    rw [removeNode_eq hmember]
    exact ConsistentHashRing.mem_owners_removeNode hnode hne
  obtain ⟨r, hr, hreads⟩ := (hafter.rebalancing.run hrun).get_reads halive' hnew
    (by rw [hlookup, hentry]) fun x hx => by
      rw [hlookup]
      rw [removeNode_eq hmember] at hx
      exact (hagree x (OrderedDict.mem_pop.mp hx).2).imp_right And.right
  rw [hvalue] at hreads
  exact ⟨r, hr, hreads.2⟩

/-- `removal_keeps_readable` where the primary `"a"` leaves and the replica has a copy. -/
theorem removal_keeps_readable_primary_leaves :
    let c := sampleHolding ["a", "b"] ["b"]
    ∃ c', Run (Works sampleHash) (c.serve sampleHash (fun _ => 0) (.removeNode "a")).2
        [.begin 0, .snapshot 0 0 .carriedOut, .plan 0 0 fun _ _ => 0] c' ∧ c'.Quiescent ∧
      ∃ r, (c'.get sampleHash (fun _ => 0) "k").1 = some r ∧ r.Is (.found 1) := by
  intro c
  obtain ⟨c', hrun, hc'⟩ := exists_run sampleHash
    (c.serve sampleHash (fun _ => 0) (.removeNode "a")).2
    [.begin 0, .snapshot 0 0 .carriedOut, .plan 0 0 fun _ _ => 0]
    (fun c' => decide (c'.Quiescent ∧
      ∀ nodeId ∈ c'.manager.nodes.keys, c'.manager.isAlive 0 nodeId = true))
    (by decide +kernel)
  obtain ⟨hquiescent, halive⟩ := of_decide_eq_true hc'
  have hworks : Run (Works sampleHash) _ _ c' := hrun.mono fun _ _ _ hs => hs.2
  refine ⟨c', hworks, hquiescent, ?_⟩
  have hrest : c.AtRest sampleHash Set.univ := sampleHolding_atRest _ _ fun _ _ => Set.mem_univ _
  have hget : (c.get sampleHash (fun _ => 0) "k").1 =
      some ⟨true, 200, none, some (some 1), some "b"⟩ := by decide +kernel
  have howners : c.manager.ring.ownerIds sampleHash "k" = ["a", "b"] := by decide +kernel
  have hmember : "a" ∈ c.manager.nodes := by decide +kernel
  have hagree : ∀ n ∈ c.manager.nodes, c.transport.lookup n "k" = none ∨
      n ∈ c.manager.ring.ownerIds sampleHash "k" ∧
        c.transport.lookup n "k" = some (.plain 1) := by
    intro n _
    rw [howners, sampleHolding_lookup]
    by_cases hb : n = "b"
    · exact Or.inr ⟨by simp [hb], if_pos ⟨by simp [hb], rfl⟩⟩
    · exact Or.inl (if_neg fun h => hb (List.mem_singleton.mp h.1))
  exact removal_keeps_readable hrest hmember hagree
    ⟨"b", by decide +kernel, by decide, by decide +kernel⟩ (allAlive_const (by decide +kernel))
    ⟨_, hget, rfl, rfl, rfl⟩ hworks (allAlive_const halive)

/-- The node that leaves had the only copy: a key that was readable is gone when the rebalance of
the removal has finished without failures. -/
theorem removal_loses_readable :
    let c := sampleHolding ["a", "b"] ["a"]
    c.AtRest sampleHash Set.univ ∧ c.AllAlive (fun _ => 0) ∧
    (∀ nodeId, c.transport.lookup nodeId "k" = none ∨
      nodeId ∈ c.manager.ring.ownerIds sampleHash "k" ∧
        c.transport.lookup nodeId "k" = some (.plain 1)) ∧
    (∃ r, (c.get sampleHash (fun _ => 0) "k").1 = some r ∧ r.Is (.found 1)) ∧
    ∃ c', Run (WorksWell sampleHash) (c.serve sampleHash (fun _ => 0) (.removeNode "a")).2
        [.begin 0, .snapshot 0 0 .carriedOut, .plan 0 0 fun _ _ => 0] c' ∧ c'.Quiescent ∧
      c'.AllAlive (fun _ => 0) ∧
      ∃ r, (c'.get sampleHash (fun _ => 0) "k").1 = some r ∧ r.Is .missing := by
  intro c
  obtain ⟨c', hrun, hc'⟩ := exists_run sampleHash
    (c.serve sampleHash (fun _ => 0) (.removeNode "a")).2
    [.begin 0, .snapshot 0 0 .carriedOut, .plan 0 0 fun _ _ => 0]
    (fun c' => decide (c'.Quiescent ∧
      (∀ nodeId ∈ c'.manager.nodes.keys, c'.manager.isAlive 0 nodeId = true) ∧
      (c'.get sampleHash (fun _ => 0) "k").1 = some ⟨false, 404, some "not found", none, none⟩))
    (by decide +kernel)
  obtain ⟨hquiescent, halive, hget'⟩ := of_decide_eq_true hc'
  have hget : (c.get sampleHash (fun _ => 0) "k").1 =
      some ⟨true, 200, none, some (some 1), some "a"⟩ := by decide +kernel
  have howners : c.manager.ring.ownerIds sampleHash "k" = ["a", "b"] := by decide +kernel
  refine ⟨sampleHolding_atRest _ _ fun _ _ => Set.mem_univ _, allAlive_const (by decide +kernel),
    fun nodeId => ?_, ⟨_, hget, rfl, rfl, rfl⟩, c', hrun, hquiescent, allAlive_const halive, _,
    hget', rfl, rfl⟩
  rw [howners, sampleHolding_lookup]
  by_cases ha : nodeId = "a"
  · exact Or.inr ⟨by simp [ha], if_pos ⟨by simp [ha], rfl⟩⟩
  · exact Or.inl (if_neg fun h => ha (List.mem_singleton.mp h.1))

/-! ### The last copy -/

/-- The owners of the key change: it has owners before and after, and not the same ones. -/
def OwnersMove (hashToInt : String → ℕ) (key : String) (c c' : DistributedCacheCluster V) : Prop :=
  Moves (c.manager.ring.ownerSet hashToInt key) (c'.manager.ring.ownerSet hashToInt key)

/-- The step carries out a scheduled put. -/
def PicksPut (c : DistributedCacheCluster V) : BackgroundStep → Prop
  | .migrate index i _ _ =>
    ∃ node k value ttlSeconds, c.scheduledCall index i = some (.put node k value ttlSeconds)
  | _ => False

/-- The background loop takes a step in which nothing fails, unless it is a scheduled put. -/
def WorksButForPuts (hashToInt : String → ℕ) (c : DistributedCacheCluster V) (s : BackgroundStep)
    (c' : DistributedCacheCluster V) : Prop :=
  (s.Succeeds ∨ c.PicksPut s) ∧ c.Works hashToInt s c'

theorem WorksButForPuts.works {s : BackgroundStep} (h : c.WorksButForPuts hashToInt s c') :
    c.Works hashToInt s c' := h.2

theorem Works.butForPuts {s : BackgroundStep} (h : c.Works hashToInt s c') (hs : s.Succeeds) :
    c.WorksButForPuts hashToInt s c' := ⟨Or.inl hs, h⟩

/-- A copy survives a rebalance when the owners stay or one of the new owners has a copy. -/
private theorem Rebalancing.exists_copy {c₀ c₁ : DistributedCacheCluster V} {succeeds : Prop}
    (h : Rebalancing hashToInt succeeds c₀ c₁ c)
    (hheld : ∃ nodeId ∈ c₁.manager.nodes, c₁.transport.lookup nodeId key ≠ none)
    (hsafe : ¬OwnersMove hashToInt key c₀ c₁ ∨
      ∃ nodeId ∈ c₁.manager.ring.ownerIds hashToInt key,
        c₁.transport.lookup nodeId key ≠ none) :
    ∃ nodeId ∈ c.manager.nodes, c.transport.lookup nodeId key ≠ none := by
  rw [h.nodes]
  rcases hsafe with hstay | ⟨nodeId, howner, hcopy⟩
  · have hidle := (h.lone key).hold_eq fun hmoves => absurd hmoves hstay
    obtain ⟨nodeId, hn, hcopy⟩ := hheld
    refine ⟨nodeId, hn, ?_⟩
    rw [show c.transport.lookup nodeId key = c₁.transport.lookup nodeId key from
      congrFun hidle nodeId]
    exact hcopy
  · obtain ⟨node, hnode, rfl⟩ := (ConsistentHashRing.mem_ownerIds hashToInt).mp howner
    obtain ⟨entry, hentry⟩ := Option.ne_none_iff_exists'.mp hcopy
    refine ⟨node.nodeId, ?_, by rw [h.lookup_of_owner hnode hentry]; simp⟩
    rw [← h.nodes]
    exact h.healthy.mem_of_mem_owners (h.ring ▸ hnode)

/-- A rebalance that has begun can read all snapshots and plan. -/
private theorem Rebalancing.exists_planned {c₀ c₁ : DistributedCacheCluster V} {index : ℕ}
    {ring : ConsistentHashRing} (todo : List NodeConfig)
    (h : Rebalancing hashToInt True c₀ c₁ c) (hkeeps : c₁.transport.Keeps c.transport)
    {task : RebalanceTask V} {snapshots : Snapshots V}
    (htask : c.rebalances[index]? = some task)
    (hphase : task.phase = .collecting ring todo snapshots) :
    ∃ steps c', Run (WorksButForPuts hashToInt) c steps c' ∧
      Rebalancing hashToInt True c₀ c₁ c' ∧ c₁.transport.Keeps c'.transport ∧ ∃ task' pending,
        c'.rebalances[index]? = some task' ∧ task'.phase = .migrating ring pending := by
  induction todo generalizing c task snapshots with
  | nil =>
    have hworks : c.Works hashToInt (.plan index 0 fun _ _ => 0)
        (c.setPhase index task (.migrating ring
          ((c.planInput task ring snapshots 0 fun _ _ => 0).plan hashToInt task.change))) := by
      refine ⟨fun cell hcell => (by cases hcell), ?_⟩
      rw [runBackground, htask, Option.bind_some]
      simp only [hphase]
    have hlt := (List.getElem?_eq_some_iff.mp htask).1
    exact ⟨_, _, .single (hworks.butForPuts trivial), h.step hworks fun _ => trivial, hkeeps,
      _, _,      List.getElem?_set_self hlt, rfl⟩
  | cons node todo ih =>
    obtain ⟨-, htargets⟩ := h.healthy.rebalance htask
    rw [hphase] at htargets
    have hanswers := h.healthy.answers _ (htargets node.nodeId List.mem_cons_self)
    rcases c.transport.trySnapshot_eq h.healthy.noTtl.transport 0 .carriedOut node with
      ⟨-, -, entries, transport, htry, -, hk⟩ | ⟨hfail, -⟩
    · have hworks : c.Works hashToInt (.snapshot index 0 .carriedOut)
          ({ c with transport := transport }.setPhase index task
            (.collecting ring todo (snapshots.set node.nodeId entries))) := by
        refine ⟨fun cell hcell => (by cases hcell), ?_⟩
        rw [runBackground, htask, Option.bind_some]
        simp only [hphase, htry]
      have hlt := (List.getElem?_eq_some_iff.mp htask).1
      obtain ⟨steps, c', hrun, h', hkeeps', htask'⟩ := ih (h.step hworks fun _ => rfl)
        (hkeeps.trans hk) (List.getElem?_set_self hlt) rfl
      exact ⟨_, c', .cons (hworks.butForPuts rfl) hrun, h', hkeeps', htask'⟩
    · exact absurd ⟨rfl, hanswers⟩ hfail

/-- Deletes are carried out, puts raise. -/
def eraseOutcome : MigrationTask V → CallOutcome
  | .put _ _ _ _ => .raised
  | .delete _ _ => .carriedOut

/-- Scheduled calls can be run such that all deletes take effect and no put does. -/
private theorem Healthy.exists_erasing_run {index : ℕ} {ring : ConsistentHashRing}
    (pending : List (MigrationTask V)) (h : c.Healthy hashToInt) {task : RebalanceTask V}
    (htask : c.rebalances[index]? = some task) (hphase : task.phase = .migrating ring pending)
    (key : String) :
    ∃ steps c', Run (WorksButForPuts hashToInt) c steps c' ∧ c'.manager = c.manager ∧
      ∀ nodeId, c'.transport.lookup nodeId key = none ∨
        c'.transport.lookup nodeId key = c.transport.lookup nodeId key ∧
          ⟨nodeId, none⟩ ∉ pendingWrites key pending := by
  induction pending generalizing c task with
  | nil =>
    refine ⟨[], c, .nil c, rfl, fun nodeId => Or.inr ⟨rfl, ?_⟩⟩
    rw [pendingWrites_nil]
    exact Set.notMem_empty _
  | cons call pending ih =>
    have hscheduled := scheduledCall_eq htask hphase List.getElem?_cons_zero
    have hworks : c.Works hashToInt (.migrate index 0 (fun _ => 0) (eraseOutcome call))
        ({ c with transport := c.transport.runTask (fun _ => 0) (eraseOutcome call) call }.setPhase
          index task (.migrating ring pending)) := by
      constructor
      · intro cell hcell
        cases call with
        | put node k value ttlSeconds => cases hcell
        | delete node k =>
          rw [eraseOutcome, putCell, hscheduled] at hcell
          cases hcell
      · rw [DistributedCacheCluster.runBackground, htask, Option.bind_some]
        simp only [hphase, List.getElem?_cons_zero, Option.map_some, List.eraseIdx_cons_zero]
    have hfails : (BackgroundStep.migrate index 0 (fun _ => 0) (eraseOutcome call)).Succeeds ∨
        c.PicksPut (.migrate index 0 (fun _ => 0) (eraseOutcome call)) := by
      cases call with
      | put node k value ttlSeconds => exact Or.inr ⟨node, k, value, ttlSeconds, hscheduled⟩
      | delete node k => exact Or.inl rfl
    have hlt := (List.getElem?_eq_some_iff.mp htask).1
    obtain ⟨steps, c', hrun, hmanager, hlookup⟩ :=
      ih (h.runBackground hworks.1 hworks.2) (List.getElem?_set_self hlt) rfl
    refine ⟨_, c', .cons ⟨hfails, hworks⟩ hrun, hmanager, fun nodeId => ?_⟩
    refine (hlookup nodeId).elim Or.inl ?_
    rintro ⟨heq, hnot⟩
    change _ = (c.transport.runTask (fun _ => 0) (eraseOutcome call) call).lookup nodeId key at heq
    cases call with
    | put node k value ttlSeconds =>
      refine Or.inr ⟨heq, ?_⟩
      rintro ⟨other, hmem, hw⟩
      rcases List.mem_cons.mp hmem with rfl | hmem
      · rw [MigrationTask.write] at hw
        split_ifs at hw
        cases (Write.mk.inj (Option.some.inj hw)).2
      · exact hnot ⟨other, hmem, hw⟩
    | delete node k =>
      obtain ⟨-, htargets⟩ := h.rebalance htask
      rw [hphase] at htargets
      have hanswers := h.answers _ (htargets node.nodeId List.mem_cons_self)
      rcases c.transport.limitedDelete_eq (fun _ => 0) .carriedOut node k with
        ⟨-, -, hwrites⟩ | ⟨hfail, -⟩
      · have heq' := heq.trans (hwrites.lookup nodeId key)
        by_cases hcell : nodeId = node.nodeId ∧ key = k
        · exact Or.inl (heq'.trans (if_pos hcell))
        · refine Or.inr ⟨heq'.trans (if_neg hcell), ?_⟩
          rintro ⟨other, hmem, hw⟩
          rcases List.mem_cons.mp hmem with rfl | hmem
          · rw [MigrationTask.write] at hw
            split_ifs at hw with hk
            exact hcell ⟨(Write.mk.inj (Option.some.inj hw)).1.symm, hk.symm⟩
          · exact hnot ⟨other, hmem, hw⟩
      · exact absurd ⟨rfl, hanswers⟩ hfail

/-- When the owners move and no new owner has a copy, the deletes come first and the puts fail in
some run, and all copies are gone. -/
private theorem Rearranged.exists_losing_run {c₀ c₁ : DistributedCacheCluster V}
    (h : Rearranged hashToInt c₀ c₁) (hmoves : OwnersMove hashToInt key c₀ c₁)
    (hnone : ∀ nodeId ∈ c₁.manager.ring.ownerIds hashToInt key,
      c₁.transport.lookup nodeId key = none) :
    ∃ steps c', Run (WorksButForPuts hashToInt) c₁ steps c' ∧ c'.manager = c₁.manager ∧
      ∀ nodeId ∈ c₁.manager.nodes, c'.transport.lookup nodeId key = none := by
  obtain ⟨change, hrebalances⟩ := h.rebalances
  have htask : c₁.rebalances[c₀.rebalances.length]? =
      some ⟨change, c₀.manager.ring, .submitted⟩ := by
    rw [hrebalances, List.getElem?_concat_length]
  have hbegin : c₁.Works hashToInt (.begin c₀.rebalances.length)
      (c₁.setPhase c₀.rebalances.length ⟨change, c₀.manager.ring, .submitted⟩
        (.collecting c₁.manager.copyRing c₁.manager.getAllNodes .empty)) := by
    refine ⟨fun cell hcell => (by cases hcell), ?_⟩
    rw [runBackground, htask, Option.bind_some]
  have hlt := (List.getElem?_eq_some_iff.mp htask).1
  obtain ⟨steps₁, c₂, hrun₁, h₂, hkeeps, task, pending, htask₂, hphase⟩ :=
    (h.rebalancing.step hbegin fun _ => trivial).exists_planned _ (.refl c₁.transport)
      (List.getElem?_set_self hlt) rfl
  obtain ⟨steps₂, c', hrun₂, hmanager, hlookup⟩ :=
    h₂.healthy.exists_erasing_run pending htask₂ hphase key
  refine ⟨_, c', .cons (hbegin.butForPuts trivial) (hrun₁.append hrun₂),
    hmanager.trans h₂.front.manager, fun nodeId hn => ?_⟩
  refine (hlookup nodeId).elim id ?_
  rintro ⟨heq, hnot⟩
  have hsame : c'.transport.lookup nodeId key = c₁.transport.lookup nodeId key :=
    heq.trans (hkeeps.lookup nodeId key)
  cases hcopy : c₁.transport.lookup nodeId key with
  | none => rw [hsame, hcopy]
  | some entry =>
    -- the copy is off the goal, and its delete was scheduled
    have hoff : nodeId ∉ c₁.manager.ring.ownerSet hashToInt key := fun hmem => by
      rw [hnone nodeId (ConsistentHashRing.mem_ownerSet.mp hmem)] at hcopy
      cases hcopy
    have hjob := getElem?_jobs_keyView hashToInt key htask₂ hphase
    rcases (h₂.lone key).mem_pending trivial hmoves hjob rfl hn hoff hcopy with hmem | hgone
    · exact absurd hmem hnot
    · exact heq.trans hgone

/-- **When a rebalance cannot destroy the last copy.** After a node joined, some member holds the
key at every moment of the rebalance, in whatever order its calls are carried out and whichever
of them fail, if and only if the owners of the key do not move or one of the new owners has a
copy when the node joins. Where neither is so, the key is lost in a run in which no call fails but
puts of the rebalance. -/
theorem last_copy_survives_iff (hrest : c.AtRest hashToInt Set.univ) {node : NodeConfig}
    {runtime : Option (NodeRuntime V)} (hjoins : c.Joins clock node runtime)
    (hheld : ∃ nodeId ∈ c.manager.nodes, c.transport.lookup nodeId key ≠ none) :
    let c₁ := (c.serve hashToInt clock (.addNode node runtime)).2
    ((∀ steps c', Run (Works hashToInt) c₁ steps c' →
        ∃ nodeId ∈ c'.manager.nodes, c'.transport.lookup nodeId key ≠ none) ↔
      ¬OwnersMove hashToInt key c c₁ ∨
        ∃ nodeId ∈ c₁.manager.ring.ownerIds hashToInt key, c₁.transport.lookup nodeId key ≠ none) ∧
    ((∀ steps c', Run (WorksButForPuts hashToInt) c₁ steps c' →
        ∃ nodeId ∈ c'.manager.nodes, c'.transport.lookup nodeId key ≠ none) ↔
      ¬OwnersMove hashToInt key c c₁ ∨
        ∃ nodeId ∈ c₁.manager.ring.ownerIds hashToInt key, c₁.transport.lookup nodeId key ≠ none) := by
  intro c₁
  have hcall : c.Rearranges Set.univ clock (.addNode node runtime) :=
    .addNode (Set.mem_univ _) hjoins
  have hafter : Rearranged hashToInt c c₁ := hcall.rearranged hrest
  have hheld' : ∃ nodeId ∈ c₁.manager.nodes, c₁.transport.lookup nodeId key ≠ none := by
    obtain ⟨nodeId, hn, hcopy⟩ := hheld
    refine ⟨nodeId, ?_, by rwa [hcall.lookup_of_mem hn]⟩
    dsimp only [c₁]
    rw [addNode_eq hjoins.new]
    exact OrderedDict.mem_set.mpr (Or.inr hn)
  have honly : (∀ steps c', Run (WorksButForPuts hashToInt) c₁ steps c' →
      ∃ nodeId ∈ c'.manager.nodes, c'.transport.lookup nodeId key ≠ none) →
      ¬OwnersMove hashToInt key c c₁ ∨ ∃ nodeId ∈ c₁.manager.ring.ownerIds hashToInt key,
        c₁.transport.lookup nodeId key ≠ none := by
    intro hsurvives
    by_contra hlost
    rw [not_or, not_not] at hlost
    obtain ⟨hmoves, hnone⟩ := hlost
    push Not at hnone
    obtain ⟨steps, c', hrun, hmanager, hgone⟩ := hafter.exists_losing_run hmoves hnone
    obtain ⟨nodeId, hn, hcopy⟩ := hsurvives steps c' hrun
    exact hcopy (hgone nodeId (hmanager ▸ hn))
  have hle {x : DistributedCacheCluster V} {steps : List BackgroundStep}
      (hrun : Run (WorksButForPuts hashToInt) c₁ steps x) : Run (Works hashToInt) c₁ steps x :=
    hrun.mono fun _ _ _ hs => hs.works
  refine ⟨⟨fun hsurvives => honly fun steps c' hrun => hsurvives steps c' (hle hrun),
    fun hsafe steps c' hrun => ?_⟩, honly, fun hsafe steps c' hrun => ?_⟩
  · exact (hafter.rebalancing.run hrun).exists_copy hheld' hsafe
  · exact (hafter.rebalancing.run (hle hrun)).exists_copy hheld' hsafe

/-- `last_copy_survives_iff` where the primary has the only copy and stays an owner. -/
theorem last_copy_survives_primary_holds :
    let c := sampleHolding ["a", "b"] ["a"]
    ∀ steps c', Run (Works sampleHash)
        (c.serve sampleHash (fun _ => 0) (.addNode (sampleNode "n") none)).2 steps c' →
      ∃ nodeId ∈ c'.manager.nodes, c'.transport.lookup nodeId "k" ≠ none := by
  intro c
  have hjoins : c.Joins (fun _ => 0) (sampleNode "n") none :=
    ⟨by decide +kernel, by decide +kernel, fun k entry hentry => by cases hentry⟩
  refine (last_copy_survives_iff (sampleHolding_atRest _ _ fun _ _ => Set.mem_univ _) hjoins
    ⟨"a", by decide +kernel, by decide +kernel⟩).1.mpr (Or.inr ⟨"a", ?_, ?_⟩) <;> decide +kernel

/-- The old replica has the only copy, and is no owner after `"n"` joined: its delete comes first,
both puts fail, and the key is gone. -/
theorem last_copy_destroyed :
    let c := sampleHolding ["a", "b"] ["b"]
    c.AtRest sampleHash Set.univ ∧ c.Joins (fun _ => 0) (sampleNode "n") none ∧
    c.transport.lookup "b" "k" = some (.plain 1) ∧
    ∃ c', Run (Works sampleHash)
        (c.serve sampleHash (fun _ => 0) (.addNode (sampleNode "n") none)).2
        [.begin 0, .snapshot 0 0 .carriedOut, .snapshot 0 0 .carriedOut,
          .snapshot 0 0 .carriedOut, .plan 0 0 fun _ _ => 0,
          .migrate 0 2 (fun _ => 0) .carriedOut, .migrate 0 0 (fun _ => 0) .raised,
          .migrate 0 0 (fun _ => 0) .raised] c' ∧
      c'.Quiescent ∧ c'.manager.nodes.keys = ["a", "b", "n"] ∧
      ∀ nodeId ∈ ["a", "b", "n"], c'.transport.lookup nodeId "k" = none := by
  intro c
  let fail : BackgroundStep := .migrate 0 0 (fun _ => 0) .raised
  obtain ⟨d, hrun, hd⟩ := exists_run sampleHash
    (c.serve sampleHash (fun _ => 0) (.addNode (sampleNode "n") none)).2
    [.begin 0, .snapshot 0 0 .carriedOut, .snapshot 0 0 .carriedOut,
      .snapshot 0 0 .carriedOut, .plan 0 0 fun _ _ => 0,
      .migrate 0 2 (fun _ => 0) .carriedOut]
    (fun d => (d.runBackground sampleHash fail).any fun e => (e.runBackground sampleHash fail).any
      fun c' => decide (c'.Quiescent ∧ c'.manager.nodes.keys = ["a", "b", "n"] ∧
        ∀ nodeId ∈ ["a", "b", "n"], c'.transport.lookup nodeId "k" = none))
    (by decide +kernel)
  obtain ⟨e, he, hd⟩ := (Option.any_eq_true _ _).mp hd
  obtain ⟨c', hc', hlost⟩ := (Option.any_eq_true _ _).mp hd
  have hfail : ∀ {x y : DistributedCacheCluster ℕ}, x.runBackground sampleHash fail = some y →
      x.Works sampleHash fail y := fun hxy => ⟨fun cell hcell => (by cases hcell), hxy⟩
  refine ⟨sampleHolding_atRest _ _ fun _ _ => Set.mem_univ _,
    ⟨by decide +kernel, by decide +kernel, fun k entry hentry => by cases hentry⟩,
    by decide +kernel, c', ?_, of_decide_eq_true hlost⟩
  exact (hrun.mono fun _ _ _ hs => hs.2).append (.cons (hfail he) (.single (hfail hc')))

end DistributedCacheCluster

end DistributedCache
