import DistributedCache.Cluster.LedgerCalls

/-!
# Runs next to the maps of writes

In a run whose background steps are in time, the owners of the key have at every moment what was
carried out last, or it is due there. Once no call and no replica write of the key is left, they
have what was acknowledged last.

## Main results

* `Ledger.Accounted.step` : the calls that wait agree with the two maps.
* `Ledger.Current.step` : the owners have the value that was carried out, or it is due.
* `Ledger.Current.lookup_eq` : what the owners have when all calls and replica writes have ended.
* `Ledger.Current.get_is_answer` : what a get answers then.
-/

namespace DistributedCache

open Library DistributedCacheCluster

variable {V : Type*} {hashToInt : String → ℕ} {key : String}

namespace Ledger

variable {x x' : Ledger V}

/-! ### The background loop takes a step -/

theorem step_background {s : BackgroundStep} (h : x.step hashToInt (.background s) = some x') :
    ∃ c, x.gateway.cluster.runBackground hashToInt s = some c ∧
      x' = { x with gateway := { x.gateway with cluster := c } } := by
  obtain ⟨p, hp, rfl⟩ := Option.map_eq_some_iff.mp h
  obtain ⟨c, hc, rfl⟩ := Option.map_eq_some_iff.mp hp
  exact ⟨c, hc, rfl⟩

section Background

variable {s : BackgroundStep} {c : DistributedCacheCluster V}

/-- The calls stay accounted for in a background step. -/
theorem Accounted.background (h : x.Accounted hashToInt key)
    (hs : x.gateway.cluster.Works hashToInt s c) :
    Accounted hashToInt key { x with gateway := { x.gateway with cluster := c } } := by
  have hring : c.manager.ring = x.gateway.cluster.manager.ring := by
    rw [(frontKept_runBackground hs.2).manager]
  refine ⟨h.healthy.runBackground hs.1 hs.2, ?_, h.arrived, ?_, h.single, h.settled⟩
  · dsimp only
    rw [hring]
    exact h.healthy.writesToward hs h.toward
  · dsimp only
    rw [hring]
    exact h.stands

/-- What is due stays due until a background step stores it. -/
private theorem Due.background {nodeId : String} (h : x.Due key nodeId)
    (hs : x.gateway.cluster.WorksWell hashToInt s c) :
    Due { x with gateway := { x.gateway with cluster := c } } key nodeId ∨
      ∃ v, x.carriedOut key = some v ∧
        x.gateway.cluster.storesFor key s = some (nodeId, .plain v) := by
  rcases h with ⟨w, hw, hkey, rfl, v, hv, hvalue⟩ | hcall
  · rcases mem_replicaWrites_or_storesFor hs hw hkey with hw | hstores
    · exact Or.inl (Or.inl ⟨w, hw, hkey, rfl, v, hv, hvalue⟩)
    · rw [hvalue] at hstores
      exact Or.inr ⟨v, hv, hstores⟩
  · exact Or.inl (Or.inr hcall)

/-- A background step in time. -/
theorem Current.background (h : x.Current hashToInt key) (haccounted : x.Accounted hashToInt key)
    (hs : x.gateway.cluster.WorksWell hashToInt s c)
    (hintime : x.InTime hashToInt key (.background s)) :
    Current hashToInt key { x with gateway := { x.gateway with cluster := c } } := by
  have hring : c.manager.ring = x.gateway.cluster.manager.ring := by
    rw [(frontKept_runBackground hs.2.2).manager]
  have hhealthy := haccounted.healthy.runBackground hs.2.1 hs.2.2
  have hnodup := ConsistentHashRing.nodup_ownerIds hashToInt x.gateway.cluster.manager.ring key
  -- what is stored and was carried out last is what the map says
  have hcurrent : ∀ {n entry}, c.transport.lookup n key = some entry →
      (∃ v ∈ x.carriedOut key, entry.value = some v) →
        c.transport.lookup n key = (x.carriedOut key).map .plain := by
    rintro n entry hentry ⟨v, hv, hvalue⟩
    have hexpires := hhealthy.noTtl.transport _ _ _ hentry
    rw [hentry, hv, Option.map_some, CacheEntry.plain, ← hvalue, ← hexpires]
  constructor
  · intro node hnode
    dsimp only at hnode ⊢
    rw [hring] at hnode
    have hmem : node.nodeId ∈ x.gateway.cluster.manager.ring.ownerIds hashToInt key :=
      List.mem_map_of_mem (List.mem_of_head? hnode)
    rcases haccounted.healthy.lookup_owner hs.2 haccounted.toward hmem with
      hsame | ⟨entry, hstores, hentry⟩
    · exact hsame.trans (h.primary node hnode)
    · refine hcurrent hentry ((hintime _ hstores hmem).resolve_right ?_)
      rintro ⟨htail, -⟩
      obtain ⟨rest, howners⟩ := List.head?_eq_some_iff.mp hnode
      rw [ConsistentHashRing.ownerIds, howners, List.map_cons] at hnodup htail
      exact (List.nodup_cons.mp hnodup).1 htail
  · intro node hnode
    dsimp only at hnode ⊢
    rw [hring] at hnode
    have hmem : node.nodeId ∈ x.gateway.cluster.manager.ring.ownerIds hashToInt key :=
      List.mem_map_of_mem (List.mem_of_mem_tail hnode)
    rcases haccounted.healthy.lookup_owner hs.2 haccounted.toward hmem with
      hsame | ⟨entry, hstores, hentry⟩
    · rcases h.replica node hnode with hcopy | hdue
      · exact Or.inl (hsame.trans hcopy)
      · refine (hdue.background hs).symm.imp_left ?_
        rintro ⟨v, hv, hstores⟩
        exact hcurrent (haccounted.healthy.lookup_of_storesFor hs.2 hstores) ⟨v, hv, rfl⟩
    · rcases hintime _ hstores hmem with hvalue | ⟨-, hdue, -⟩
      · exact Or.inl (hcurrent hentry hvalue)
      · rcases hdue.background hs with hdue | ⟨v, hv, hstores'⟩
        · exact Or.inr hdue
        · obtain ⟨-, rfl⟩ := Prod.mk.inj (Option.some.inj (hstores.symm.trans hstores'))
          exact Or.inl (hcurrent hentry ⟨v, hv, rfl⟩)

end Background

/-! ### Runs -/

/-- **The calls stay accounted for** in every orderly event. A call has one of three effects for
the key, or the background loop takes a step. -/
theorem Accounted.step (h : x.Accounted hashToInt key) {e : GatewayEvent V}
    (hstep : Step hashToInt key x e x') :
    x'.Accounted hashToInt key ∧
      (Effect hashToInt key x x' ∨ ∃ s c, e = .background s ∧
        x.gateway.cluster.WorksWell hashToInt s c ∧
        x' = { x with gateway := { x.gateway with cluster := c } }) := by
  obtain ⟨halive, horderly, hstep⟩ := hstep
  cases e with
  | arrive clock call =>
    exact (h.arrive (halive clock rfl) (horderly.plain (clock, call) rfl)
      (horderly.inTurn (clock, call) rfl) hstep).imp_right Or.inl
  | perform id clock => exact (h.perform horderly.room hstep).imp_right Or.inl
  | resume id clock => exact (h.resume (halive clock rfl) hstep).imp_right Or.inl
  | raise id => exact horderly.succeeds.elim
  | background s =>
    obtain ⟨c, hs, rfl⟩ := step_background hstep
    have hworks : x.gateway.cluster.WorksWell hashToInt s c :=
      ⟨horderly.succeeds, horderly.room, hs⟩
    exact ⟨h.background hworks.2, Or.inr ⟨s, c, rfl, hworks, rfl⟩⟩

/-- **The owners have what was carried out last, or it is due**, as long as the background steps
are in time. -/
theorem Current.step (h : x.Current hashToInt key) (haccounted : x.Accounted hashToInt key)
    {e : GatewayEvent V} (hintime : x.InTime hashToInt key e) (hstep : Step hashToInt key x e x') :
    x'.Current hashToInt key := by
  rcases (haccounted.step hstep).2 with heffect | ⟨s, c, rfl, hs, rfl⟩
  · cases heffect with
    | same hsame => exact h.same hsame
    | written hring hcurrent => exact hcurrent
    | erased hring hcarried hcurrent => exact hcurrent h
  · exact h.background haccounted hs hintime

/-- What a call has yet to bring is its own write. -/
theorem writtenKey?_of_toCome? {state : CallState V} {nodeId : String} {v : Option V}
    (h : state.toCome? = some (nodeId, key, v)) : state.writtenKey? = some key := by
  unfold CallState.toCome? at h
  split at h
  · obtain ⟨replica, -, heq⟩ := Option.map_eq_some_iff.mp h
    exact congrArg some (congrArg (fun p => p.2.1) heq)
  · split_ifs at h
    obtain ⟨replica, -, heq⟩ := Option.map_eq_some_iff.mp h
    exact congrArg some (congrArg (fun p => p.2.1) heq)
  · exact congrArg some (congrArg (fun p => p.2.1) (Option.some.inj h))
  · cases h

/-- While no write of the key is under way, only a replica write can be due. -/
theorem Due.exists_replicaWrite {nodeId : String} (h : x.Due key nodeId)
    (hidle : ¬x.UnderWay key) : ∃ w ∈ x.gateway.cluster.replicaWrites, w.key = key ∧
      w.node.nodeId = nodeId ∧ ∃ v ∈ x.carriedOut key, w.value = some v := by
  refine h.resolve_right ?_
  rintro ⟨id, hlt, hcome⟩
  obtain ⟨state, hstate, hcome⟩ := Option.bind_eq_some_iff.mp hcome
  exact hidle ⟨id, hlt, state, hstate, writtenKey?_of_toCome? hcome⟩

/-- An owner of the key has what was carried out last, or it is due there. -/
theorem Current.lookup_or_due (h : x.Current hashToInt key) {node : NodeConfig}
    (hnode : node ∈ x.gateway.cluster.manager.ring.owners hashToInt key) :
    x.gateway.cluster.transport.lookup node.nodeId key = (x.carriedOut key).map .plain ∨
      x.Due key node.nodeId := by
  cases howners : x.gateway.cluster.manager.ring.owners hashToInt key with
  | nil =>
    rw [howners] at hnode
    cases hnode
  | cons target rest =>
    rw [howners] at hnode
    rcases List.mem_cons.mp hnode with rfl | hnode
    · exact Or.inl (h.primary node (by rw [howners]; rfl))
    · exact h.replica node (by rw [howners]; exact hnode)

/-- Once all calls and replica writes of the key have ended, its owners have what was acknowledged
last. -/
theorem Current.lookup_eq (h : x.Current hashToInt key) (haccounted : x.Accounted hashToInt key)
    (hidle : ¬x.UnderWay key) (hdone : ∀ w ∈ x.gateway.cluster.replicaWrites, w.key ≠ key)
    {node : NodeConfig} (hnode : node ∈ x.gateway.cluster.manager.ring.owners hashToInt key) :
    x.gateway.cluster.transport.lookup node.nodeId key = (x.acknowledged key).map .plain := by
  rw [haccounted.settled hidle]
  refine (h.lookup_or_due hnode).resolve_right fun hdue => ?_
  obtain ⟨w, hw, hkey, -⟩ := hdue.exists_replicaWrite hidle
  exact hdone w hw hkey

/-- While no write of the key is under way, a get answers what was acknowledged last. -/
theorem Current.get_is_answer (h : x.Current hashToInt key) (haccounted : x.Accounted hashToInt key)
    (hidle : ¬x.UnderWay key) {clock : Clock} (halive : x.gateway.cluster.AllAlive clock)
    (howners : x.gateway.cluster.manager.ring.owners hashToInt key ≠ []) :
    ∃ r, (x.gateway.cluster.get hashToInt clock key).1 = some r ∧
      r.Is ((ClientOp.get key).answer x.acknowledged) := by
  rw [ClientOp.answer, haccounted.settled hidle]
  cases hcarried : x.carriedOut key with
  | some v =>
    obtain ⟨target, rest, htarget⟩ := List.exists_cons_of_ne_nil howners
    have hprimary := h.primary target (by rw [htarget]; rfl)
    rw [hcarried] at hprimary
    exact haccounted.healthy.get_is_found halive htarget hprimary
  | none =>
    refine haccounted.healthy.get_is_missing halive howners fun node hnode => ?_
    rcases h.lookup_or_due hnode with hcopy | hdue
    · rw [hcopy, hcarried]
      rfl
    · obtain ⟨w, -, -, -, v, hv, -⟩ := hdue.exists_replicaWrite hidle
      rw [hcarried] at hv
      cases hv

/-! ### Executed runs -/

section RunAll

variable (hashToInt : String → ℕ) (key : String) (now : Time)
  (P : Ledger V → GatewayEvent V → Prop) [∀ x e, Decidable (P x e)]

/-- The orderly events one after another at the time `now`, as long as they meet `P`. -/
def runAllWhere (x : Ledger V) : List (GatewayEvent V) → Option (Ledger V)
  | [] => some x
  | e :: es =>
    if P x e ∧ (∀ nodeId ∈ x.gateway.cluster.manager.nodes.keys,
        x.gateway.cluster.manager.isAlive now nodeId = true) ∧ x.Orderly hashToInt key e then
      (x.step hashToInt e).bind fun x' => runAllWhere x' es
    else none

/-- A run exists whose end passes a check, if the executed events do. -/
theorem exists_run_where (x : Ledger V) (es : List (GatewayEvent V))
    (hclock : ∀ e ∈ es, ∀ clock ∈ e.clock?, clock = fun _ => now) (p : Ledger V → Bool)
    (h : (x.runAllWhere hashToInt key now P es).any p = true) :
    ∃ x', Run (fun x e x' => P x e ∧ Step hashToInt key x e x') x es x' ∧ p x' = true := by
  induction es generalizing x with
  | nil => exact ⟨x, .nil x, h⟩
  | cons e es ih =>
    rw [runAllWhere] at h
    split_ifs at h with hP
    · cases hstep : x.step hashToInt e with
      | none =>
        rw [hstep] at h
        cases h
      | some y =>
        rw [hstep, Option.bind_some] at h
        obtain ⟨x', hrun, hp⟩ := ih y (fun e he => hclock e (List.mem_cons_of_mem _ he)) h
        refine ⟨x', .cons ⟨hP.1, fun clock he => ?_, hP.2.2, hstep⟩ hrun, hp⟩
        rw [hclock e List.mem_cons_self clock he]
        exact allAlive_const hP.2.1
    · cases h

end RunAll

end Ledger

end DistributedCache
