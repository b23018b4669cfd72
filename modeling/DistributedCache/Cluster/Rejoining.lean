import DistributedCache.Cluster.History

/-!
# Nodes that come back with their stores

A node that leaves keeps its store, and nothing clears the store when the node joins again. The
rebalance takes what it finds there for current, so that a key that was written or deleted
meanwhile comes back with its old value. As long as the store has nothing for a key, or the node
becomes an owner again and has its current value, a get of the key answers as the map.

## Main results

* `Observed.rejoining_keeps_current` : gets of a key that comes back at most where it belongs.
* `Observed.rejoining_revives` : a key that was deleted while a node was away comes back.
-/

namespace DistributedCache

open Library DistributedCacheCluster

variable {V : Type*} {hashToInt : String → ℕ} {key : String}

namespace Observed

/-- **A node that comes back revives nothing that is current where it belongs.** Take any
sequential history in which nodes leave and come back with whatever they have stored. If every
node that joins has nothing stored for the key, or becomes an owner of the key and has its
current value, and no member leaves that is the only owner of the key, then a get answers as the
map of the acknowledged calls. -/
theorem rejoining_keeps_current {start x : Observed V} {events : List (HistoryEvent V)}
    (hstart : start.Mirrors hashToInt Set.univ key)
    (hrun : Run (Sequential hashToInt Set.univ (ReturnsCurrent hashToInt key)) start events x)
    {clock : Clock} (halive : x.cluster.AllAlive clock)
    (howners : x.cluster.manager.ring.owners hashToInt key ≠ []) :
    ∃ r, (x.cluster.get hashToInt clock key).1 = some r ∧
      r.Is ((ClientOp.get key).answer x.map) := by
  have h : x.Mirrors hashToInt Set.univ key :=
    hrun.invariant (fun _ _ _ h hstep => h.step hstep) hstart
  exact h.rest.healthy.get_is_answer halive howners h.lookup_owner

/-- `rejoining_keeps_current` where the replica leaves and comes back with a copy that is
current. -/
theorem rejoining_keeps_current_replica_returns :
    let start : Observed ℕ :=
      ⟨{ sampleHolding ["a", "b"] ["a", "b"] with
          transport := { (sampleHolding ["a", "b"] ["a", "b"]).transport with kind := .http } },
        fun key => if key = "k" then some 1 else none⟩
    ∃ x, Run (Sequential sampleHash Set.univ (ReturnsCurrent sampleHash "k")) start
        [.change (fun _ => 0) (.removeNode "b")
            [.begin 0, .snapshot 0 0 .carriedOut, .plan 0 0 fun _ _ => 0],
          .change (fun _ => 0) (.addNode (sampleNode "b") none)
            [.begin 1, .snapshot 1 0 .carriedOut, .snapshot 1 0 .carriedOut,
              .plan 1 0 fun _ _ => 0]] x ∧
      ∃ r, (x.cluster.get sampleHash (fun _ => 0) "k").1 = some r ∧
        r.Is ((ClientOp.get "k").answer x.map) := by
  intro start
  let serve (c : DistributedCacheCluster ℕ) (call : Call ℕ) := c.serve sampleHash (fun _ => 0) call
  let leave : Call ℕ := .removeNode "b"
  let join : Call ℕ := .addNode (sampleNode "b") none
  let back : DistributedCacheCluster ℕ → Bool := fun c => decide (c.Quiescent ∧
    (∀ nodeId ∈ c.manager.nodes.keys, c.manager.isAlive 0 nodeId = true) ∧
    c.manager.ring.owners sampleHash "k" ≠ [])
  let left : DistributedCacheCluster ℕ → Bool := fun c => decide (c.Quiescent ∧
    "b" ∉ c.manager.nodes ∧ c.transport.kind = .http ∧ c.transport.Answers "b" ∧
    c.NoEviction sampleHash (.call (fun _ => 0) join) ∧
    "b" ∈ (c.manager.ring.addNode sampleHash (sampleNode "b")).ownerIds sampleHash "k" ∧
    c.transport.lookup "b" "k" = some (.plain 1) ∧
    ((serve c join).2.runAll sampleHash [.begin 1, .snapshot 1 0 .carriedOut,
      .snapshot 1 0 .carriedOut, .plan 1 0 fun _ _ => 0]).any back = true)
  obtain ⟨c₁, hrun₁, h₁⟩ := exists_run sampleHash (serve start.cluster leave).2
    [.begin 0, .snapshot 0 0 .carriedOut, .plan 0 0 fun _ _ => 0] left (by decide +kernel)
  obtain ⟨hquiescent₁, hnew, hkind, hanswers, hroom, howner, hcopy, h₁⟩ := of_decide_eq_true h₁
  obtain ⟨c₂, hrun₂, h₂⟩ := exists_run sampleHash _ _ _ h₁
  obtain ⟨hquiescent₂, halive, howners⟩ := of_decide_eq_true h₂
  have hrest : start.cluster.AtRest sampleHash Set.univ :=
    (sampleHolding_atRest _ _ fun _ _ => Set.mem_univ _).withKind .http
  have hmirrors : start.Mirrors sampleHash Set.univ "k" :=
    ⟨hrest, sampleHolding_placed, fun _ => by decide +kernel⟩
  have hleave : start.cluster.Rearranges Set.univ (fun _ => 0) leave :=
    .removeNode (by decide +kernel) ⟨"a", by decide +kernel, by decide⟩
  have hleaves : start.ReturnsCurrent sampleHash "k" (.call (fun _ => 0) leave) :=
    ⟨fun cell hcell => (by cases hcell), fun _ => ⟨"a", by decide +kernel, by decide⟩⟩
  have hregister : c₁.transport.registerNode 0 (sampleNode "b") none = c₁.transport := by
    rw [NodeTransport.registerNode, hkind]
  have hjoin : c₁.Rearranges Set.univ (fun _ => 0) join := by
    refine .addNode (Set.mem_univ _) ⟨hnew, ?_, ?_⟩ <;> rw [hregister]
    · exact hanswers
    · exact (hmirrors.change hleave hleaves hrun₁ hquiescent₁).rest.noTtl "b"
  have hreturns : ReturnsCurrent sampleHash "k" ⟨c₁, start.map⟩ (.call (fun _ => 0) join) := by
    refine ⟨hroom, Or.inr ⟨howner, ?_⟩⟩
    dsimp only
    rw [hregister]
    exact hcopy
  have hrun : Run (Sequential sampleHash Set.univ (ReturnsCurrent sampleHash "k")) start _
      ⟨c₂, start.map⟩ :=
    .cons (.change hleave hleaves
        (hrun₁.mono fun _ _ _ hs => ⟨hs.1, ⟨hs.2.1, trivial⟩, hs.2.2⟩) hquiescent₁)
      (.single (.change hjoin hreturns
        (hrun₂.mono fun _ _ _ hs => ⟨hs.1, ⟨hs.2.1, trivial⟩, hs.2.2⟩) hquiescent₂))
  exact ⟨_, hrun, rejoining_keeps_current hmirrors hrun (allAlive_const halive) howners⟩

/-- A key is put, the replica leaves, the key is deleted, and the replica comes back with its
store: the rebalance copies the deleted value to the primary, and a get finds it. -/
theorem rejoining_revives :
    let start : Observed ℕ :=
      ⟨{ sampleHolding ["a", "b"] [] with
          transport := { (sampleHolding ["a", "b"] []).transport with kind := .http } },
        fun _ => none⟩
    start.cluster.AtRest sampleHash Set.univ ∧
    (∀ nodeId key, start.cluster.transport.lookup nodeId key = none) ∧
    ∃ x, Run (Sequential sampleHash Set.univ fun x e => x.cluster.NoEviction sampleHash e) start
        [.client (fun _ => 0) (.put "k" 1) [.replicate 0 (fun _ => 0) .carriedOut],
          .change (fun _ => 0) (.removeNode "b")
            [.begin 0, .snapshot 0 0 .carriedOut, .plan 0 0 fun _ _ => 0],
          .client (fun _ => 0) (.delete "k") [],
          .change (fun _ => 0) (.addNode (sampleNode "b") none)
            [.begin 1, .snapshot 1 0 .carriedOut, .snapshot 1 0 .carriedOut,
              .plan 1 0 fun _ _ => 0, .migrate 1 0 (fun _ => 0) .carriedOut]] x ∧
      x.map "k" = none ∧ x.cluster.AllAlive (fun _ => 0) ∧
      ∃ r, (x.cluster.get sampleHash (fun _ => 0) "k").1 = some r ∧ r.Is (.found 1) := by
  intro start
  let serve (c : DistributedCacheCluster ℕ) (call : Call ℕ) := c.serve sampleHash (fun _ => 0) call
  let alive (c : DistributedCacheCluster ℕ) : Prop :=
    ∀ nodeId ∈ c.manager.nodes.keys, c.manager.isAlive 0 nodeId = true
  let room (c : DistributedCacheCluster ℕ) (call : Call ℕ) : Prop :=
    c.NoEviction sampleHash (.call (fun _ => 0) call)
  let put : ClientOp ℕ := .put "k" 1
  let leave : Call ℕ := .removeNode "b"
  let delete : ClientOp ℕ := .delete "k"
  let join : Call ℕ := .addNode (sampleNode "b") none
  -- what is to be checked of the cluster after each call, from the last one to the first
  let revived : DistributedCacheCluster ℕ → Bool := fun c => decide (c.Quiescent ∧ alive c ∧
    (c.get sampleHash (fun _ => 0) "k").1 = some ⟨true, 200, none, some (some 1), some "a"⟩)
  let deleted : DistributedCacheCluster ℕ → Bool := fun c => decide (c.Quiescent ∧
    "b" ∉ c.manager.nodes ∧ c.transport.kind = .http ∧ c.transport.Answers "b" ∧
    room c join ∧ ((serve c join).2.runAll sampleHash
      [.begin 1, .snapshot 1 0 .carriedOut, .snapshot 1 0 .carriedOut, .plan 1 0 fun _ _ => 0,
        .migrate 1 0 (fun _ => 0) .carriedOut]).any revived = true)
  let left : DistributedCacheCluster ℕ → Bool := fun c => decide (c.Quiescent ∧ alive c ∧
    room c delete.call ∧ (serve c delete.call).1.map Response.ok = some true ∧
    ((serve c delete.call).2.runAll sampleHash []).any deleted = true)
  let stored : DistributedCacheCluster ℕ → Bool := fun c => decide (c.Quiescent ∧
    "b" ∈ c.manager.nodes ∧ "a" ∈ c.manager.nodes ∧
    "a" ∈ c.manager.ring.ownerIds sampleHash "k" ∧ room c leave ∧
    ((serve c leave).2.runAll sampleHash
      [.begin 0, .snapshot 0 0 .carriedOut, .plan 0 0 fun _ _ => 0]).any left = true)
  obtain ⟨c₁, hrun₁, h₁⟩ := exists_run sampleHash (serve start.cluster put.call).2
    [.replicate 0 (fun _ => 0) .carriedOut] stored (by decide +kernel)
  obtain ⟨hquiescent₁, hb, ha, howner, hroom₁, h₁⟩ := of_decide_eq_true h₁
  obtain ⟨c₂, hrun₂, h₂⟩ := exists_run sampleHash _ _ _ h₁
  obtain ⟨hquiescent₂, halive₂, hroom₂, hok, h₂⟩ := of_decide_eq_true h₂
  obtain ⟨c₃, hrun₃, h₃⟩ := exists_run sampleHash _ _ _ h₂
  obtain ⟨hquiescent₃, hnew, hkind, hanswers, hroom₃, h₃⟩ := of_decide_eq_true h₃
  obtain ⟨c₄, hrun₄, h₄⟩ := exists_run sampleHash _ _ _ h₃
  obtain ⟨hquiescent₄, halive₄, hget⟩ := of_decide_eq_true h₄
  have hempty : ∀ nodeId key, start.cluster.transport.lookup nodeId key = none := by
    intro nodeId key
    refine (sampleHolding_lookup ["a", "b"] [] nodeId key).trans (if_neg fun h => ?_)
    exact List.not_mem_nil h.1
  have hrest : start.cluster.AtRest sampleHash Set.univ :=
    (sampleHolding_atRest _ _ fun _ _ => Set.mem_univ _).withKind .http
  have halive : start.cluster.AllAlive fun _ => 0 := allAlive_const (by decide +kernel)
  have hroom : room start.cluster put.call := by decide +kernel
  have hleave : c₁.Rearranges Set.univ (fun _ => 0) leave := .removeNode hb ⟨"a", ha, by decide⟩
  -- up to the delete the key is placed, so that no entry has a lifetime
  have hmirrors : start.Mirrors sampleHash Set.univ "k" :=
    ⟨hrest, fun nodeId _ => by rw [hempty]; exact (ite_self _).symm, fun h => absurd rfl h⟩
  let m₁ := put.observe (serve start.cluster put.call).1 start.map
  let m₂ := delete.observe (serve c₂ delete.call).1 m₁
  have hstored : Mirrors sampleHash Set.univ "k" ⟨c₁, m₁⟩ :=
    hmirrors.client halive hroom hrun₁ hquiescent₁
  have hleft := hstored.change hleave ⟨hroom₁, fun _ => ⟨"a", howner, by decide⟩⟩ hrun₂ hquiescent₂
  have hdeleted : Mirrors sampleHash Set.univ "k" ⟨c₃, m₂⟩ :=
    hleft.client (allAlive_const halive₂) hroom₂ hrun₃ hquiescent₃
  have hregister : c₃.transport.registerNode 0 (sampleNode "b") none = c₃.transport := by
    rw [NodeTransport.registerNode, hkind]
  have hjoin : c₃.Rearranges Set.univ (fun _ => 0) join := by
    refine .addNode (Set.mem_univ _) ⟨hnew, ?_, ?_⟩ <;> rw [hregister]
    · exact hanswers
    · exact hdeleted.rest.noTtl "b"
  have hmap : m₂ "k" = none := by
    obtain ⟨r, hr, hok⟩ := Option.map_eq_some_iff.mp hok
    rw [show m₂ = delete.observe (some r) m₁ from congrArg (delete.observe · m₁) hr,
      ClientOp.observe_of_ok hok]
    rfl
  refine ⟨hrest, hempty, ⟨c₄, m₂⟩, .cons (.client halive hroom rfl hrun₁ hquiescent₁)
    (.cons (.change hleave hroom₁ hrun₂ hquiescent₂)
      (.cons (.client (allAlive_const halive₂) hroom₂ rfl hrun₃ hquiescent₃)
        (.single (.change hjoin hroom₃ hrun₄ hquiescent₄)))), hmap, allAlive_const halive₄,
    _, hget, rfl, rfl, rfl⟩

end Observed

end DistributedCache
