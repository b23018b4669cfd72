import DistributedCache.Cluster.KeyValueMap

/-!
# Client calls on a healthy cluster

While all members are alive, a client call does one of five things, whatever the background loop
still has to do.

## Main definitions

* `DistributedCacheCluster.AllAlive` : all members answer the liveness checks of a call.
* `DistributedCacheCluster.ServedAlive` : what a call about one key does then.
* `Observed` : a cluster next to the map of the acknowledged calls.

## Main results

* `DistributedCacheCluster.servedAlive` : these are all cases.
* `DistributedCacheCluster.ServedAlive.healthy` : the cluster stays healthy.
* `DistributedCacheCluster.Healthy.get_response` : the answer of a get.
-/

namespace DistributedCache

open Library Library.Relocation

variable {V : Type*} {hashToInt : String → ℕ}

namespace DistributedCacheCluster

/-- All members are alive at all readings of the clock. -/
def AllAlive (c : DistributedCacheCluster V) (clock : Clock) : Prop :=
  ∀ nodeId ∈ c.manager.nodes, c.manager.AliveThroughout clock nodeId true

/-- What a client call about one key does while all members are alive. -/
inductive ServedAlive (hashToInt : String → ℕ) (c : DistributedCacheCluster V) :
    ClientOp V → Response V → DistributedCacheCluster V → Prop
  | unavailable {op : ClientOp V} (howners : c.manager.ring.owners hashToInt op.key = []) :
      ServedAlive hashToInt c op noLiveNodes c
  | put {key : String} {value : V} {target : NodeConfig} {rest : List NodeConfig}
      {manager : ClusterManager} {transport : NodeTransport V} {r : Response V}
      (howners : c.manager.ring.owners hashToInt key = target :: rest)
      (hmanager : HeartbeatOnly c.manager manager) (hok : r.ok = true)
      (hwrites : c.transport.Writes target.nodeId key (some (.plain value)) transport) :
      ServedAlive hashToInt c (.put key value) r
        { c with
          manager := manager
          transport := transport
          replicaWrites :=
            c.replicaWrites ++ rest.map fun node => ⟨node, key, some value, none⟩ }
  | get {key : String} {manager : ClusterManager} {transport : NodeTransport V}
      (hmanager : HeartbeatOnly c.manager manager) (hkeeps : c.transport.Keeps transport) :
      ServedAlive hashToInt c (.get key)
        (getResponse (c.liveCopy hashToInt (fun _ => true) key))
        { c with manager := manager, transport := transport }
  | missing {key : String} {target : NodeConfig} {rest : List NodeConfig}
      {transport : NodeTransport V} {r : Response V}
      (howners : c.manager.ring.owners hashToInt key = target :: rest) (hok : r.ok = false)
      (hmissing : c.transport.lookup target.nodeId key = none)
      (hkeeps : c.transport.Keeps transport) :
      ServedAlive hashToInt c (.delete key) r { c with transport := transport }
  | deleted {key : String} {target : NodeConfig} {rest : List NodeConfig}
      {transport : NodeTransport V} {r : Response V}
      (howners : c.manager.ring.owners hashToInt key = target :: rest) (hok : r.ok = true)
      (hsame : c.transport.SameNodes transport)
      (hlookup : ∀ n k, transport.lookup n k =
        if k = key ∧ n ∈ c.manager.ring.ownerIds hashToInt key then none
        else c.transport.lookup n k) :
      ServedAlive hashToInt c (.delete key) r { c with transport := transport }

variable {c c' : DistributedCacheCluster V} {clock : Clock}

theorem allAlive_const {now : Time}
    (h : ∀ nodeId ∈ c.manager.nodes.keys, c.manager.isAlive now nodeId = true) :
    c.AllAlive fun _ => now := fun nodeId hn _ => h nodeId hn

theorem Healthy.mem_of_mem_owners (h : c.Healthy hashToInt) {key : String} {node : NodeConfig}
    (hnode : node ∈ c.manager.ring.owners hashToInt key) : node.nodeId ∈ c.manager.nodes :=
  OrderedDict.mem_iff_exists_get?.mpr ⟨node, h.coherent.get?_nodes_of_mem_owners hnode⟩

/-- A cluster stays healthy when nodes, members and rebalances stay and nothing gets a lifetime. -/
theorem Healthy.mono (h : c.Healthy hashToInt) (hmanager : HeartbeatOnly c.manager c'.manager)
    (hsame : c.transport.SameNodes c'.transport) (hnoTtl : c'.transport.NoTtl)
    (hrebalances : c'.rebalances = c.rebalances)
    (hws : ∀ w ∈ c'.replicaWrites, w ∈ c.replicaWrites ∨
      w.ttlSeconds = none ∧ w.node.nodeId ∈ c.manager.nodes) : c'.Healthy hashToInt := by
  have hnodes := hmanager.nodes
  refine ⟨hmanager.coherent h.coherent, ⟨hnoTtl, fun w hw => ?_, ?_⟩, fun nodeId hn => ?_,
    fun w hw => ?_, fun task htask nodeId hn => ?_⟩
  · exact (hws w hw).elim (h.noTtl.replicaWrites w) And.left
  · rw [hrebalances]
    exact h.noTtl.rebalances
  · rw [hnodes] at hn
    exact hsame.answers_iff.mpr (h.answers nodeId hn)
  · rw [hnodes]
    exact (hws w hw).elim (h.replicaTargets w) And.right
  · rw [hrebalances] at htask
    rw [hnodes]
    exact h.targets task htask nodeId hn

theorem Healthy.steady (h : c.Healthy hashToInt) (halive : c.AllAlive clock) (key : String) :
    c.manager.Steady hashToInt clock (fun _ => true) key :=
  fun node hnode => halive node.nodeId (h.mem_of_mem_owners hnode)

/-- A client call while all members are alive. -/
theorem servedAlive (h : c.Healthy hashToInt) (halive : c.AllAlive clock) (op : ClientOp V)
    (hroom : c.NoEviction hashToInt (.call clock op.call)) :
    ∃ r c', c.serve hashToInt clock op.call = (some r, c') ∧ ServedAlive hashToInt c op r c' := by
  have hsteady := h.steady halive op.key
  have hanswers : ∀ node ∈ c.manager.ring.owners hashToInt op.key,
      c.transport.Answers node.nodeId := fun node hnode => h.answers _ (h.mem_of_mem_owners hnode)
  have hlive := liveOwners_true hashToInt c.manager op.key
  cases howners : c.manager.ring.owners hashToInt op.key with
  | nil =>
    rw [howners] at hlive
    refine ⟨noLiveNodes, c, ?_, .unavailable howners⟩
    cases op with
    | put key value => exact put_unavailable hsteady hlive _ _
    | get key => exact get_unavailable hsteady hlive
    | delete key => exact delete_unavailable hsteady hlive
  | cons target rest =>
    rw [howners] at hlive hanswers
    cases op with
    | put key value =>
      dsimp only [ClientOp.key] at hlive hsteady howners
      have hcell : c.transport.HasRoom target.nodeId key := by
        refine hroom (target.nodeId, key) ?_
        rw [ClientOp.call, putCell, servedBy_eq_some hsteady hlive]
        rfl
      obtain ⟨transport, hput, hwrites⟩ := put_eq hsteady hlive
        (hanswers target List.mem_cons_self) hcell (some value)
      exact ⟨_, _, hput, .put howners (Or.inr ⟨_, _, rfl⟩) rfl hwrites⟩
    | get key =>
      dsimp only [ClientOp.key] at hlive hsteady
      obtain ⟨manager, transport, hget, hmanager, hkeeps⟩ :=
        get_eq hsteady hlive hanswers h.noTtl.transport
      exact ⟨_, _, hget, .get (hmanager.imp_right (Exists.imp fun now h => ⟨_, h⟩)) hkeeps⟩
    | delete key =>
      dsimp only [ClientOp.key] at hlive hsteady howners
      cases hcopy : c.transport.lookup target.nodeId key with
      | none =>
        obtain ⟨message, transport, hdelete, hkeeps⟩ := delete_eq_of_missing hsteady hlive
          (hanswers target List.mem_cons_self) hcopy
        exact ⟨_, _, hdelete, .missing howners rfl hcopy hkeeps⟩
      | some entry =>
        obtain ⟨transport, hdelete, hsame, hlookup⟩ := delete_eq_of_found hsteady hlive hanswers
          (by rw [hcopy]; rfl)
        refine ⟨_, _, hdelete, .deleted howners rfl hsame ?_⟩
        rw [ConsistentHashRing.ownerIds, howners]
        exact hlookup

namespace ServedAlive

variable {op : ClientOp V} {r : Response V}

theorem manager (h : ServedAlive hashToInt c op r c') : HeartbeatOnly c.manager c'.manager := by
  cases h with
  | unavailable howners => exact Or.inl rfl
  | put howners hmanager hok hwrites => exact hmanager
  | get hmanager hkeeps => exact hmanager
  | missing howners hok hmissing hkeeps => exact Or.inl rfl
  | deleted howners hok hsame hlookup => exact Or.inl rfl

theorem rebalances (h : ServedAlive hashToInt c op r c') : c'.rebalances = c.rebalances := by
  cases h <;> rfl

/-- A call changes the entries of its own key only. -/
theorem lookup_of_ne (h : ServedAlive hashToInt c op r c') {k : String} (hk : k ≠ op.key)
    (n : String) : c'.transport.lookup n k = c.transport.lookup n k := by
  cases h with
  | unavailable howners => rfl
  | put howners hmanager hok hwrites => exact (hwrites.lookup n k).trans (if_neg fun hc => hk hc.2)
  | get hmanager hkeeps => exact hkeeps.lookup n k
  | missing howners hok hmissing hkeeps => exact hkeeps.lookup n k
  | deleted howners hok hsame hlookup => exact (hlookup n k).trans (if_neg fun hc => hk hc.1)

/-- The replica writes that a call submits are those of a put, to the other owners. -/
theorem exists_replicaWrites (h : ServedAlive hashToInt c op r c') :
    ∃ ws, c'.replicaWrites = c.replicaWrites ++ ws ∧ ∀ w ∈ ws, w.key = op.key ∧
      w.ttlSeconds = none ∧ w.node ∈ c.manager.ring.owners hashToInt op.key := by
  cases h with
  | @put key value target rest manager transport r howners hmanager hok hwrites =>
    refine ⟨rest.map fun node => ⟨node, key, some value, none⟩, rfl, fun w hw => ?_⟩
    obtain ⟨node, hnode, rfl⟩ := List.mem_map.mp hw
    exact ⟨rfl, rfl, howners ▸ List.mem_cons_of_mem _ hnode⟩
  | unavailable howners => exact ⟨[], (List.append_nil _).symm, by simp⟩
  | get hmanager hkeeps => exact ⟨[], (List.append_nil _).symm, by simp⟩
  | missing howners hok hmissing hkeeps => exact ⟨[], (List.append_nil _).symm, by simp⟩
  | deleted howners hok hsame hlookup => exact ⟨[], (List.append_nil _).symm, by simp⟩

/-- A call submits at most one replica write. -/
theorem length_replicaWrites (h : ServedAlive hashToInt c op r c') :
    c'.replicaWrites.length ≤ c.replicaWrites.length + 1 := by
  cases h with
  | @put key value target rest manager transport r howners hmanager hok hwrites =>
    have hrest := ClusterManager.liveOwners_tail
      ((liveOwners_true hashToInt c.manager key).trans howners)
    rw [List.length_append, List.length_map, hrest]
    cases rest.head? <;> simp
  | unavailable howners => exact Nat.le_succ _
  | get hmanager hkeeps => exact Nat.le_succ _
  | missing howners hok hmissing hkeeps => exact Nat.le_succ _
  | deleted howners hok hsame hlookup => exact Nat.le_succ _

theorem transport (h : ServedAlive hashToInt c op r c') (hnoTtl : c.transport.NoTtl) :
    c.transport.SameNodes c'.transport ∧ c'.transport.NoTtl := by
  cases h with
  | unavailable howners => exact ⟨.refl _, hnoTtl⟩
  | put howners hmanager hok hwrites =>
    exact ⟨hwrites.toSameNodes, hnoTtl.writes hwrites fun e he => by rw [← Option.some.inj he]; rfl⟩
  | get hmanager hkeeps => exact ⟨hkeeps.toSameNodes, hnoTtl.keeps hkeeps⟩
  | missing howners hok hmissing hkeeps => exact ⟨hkeeps.toSameNodes, hnoTtl.keeps hkeeps⟩
  | deleted howners hok hsame hlookup =>
    refine ⟨hsame, fun n k e he => ?_⟩
    dsimp only at he
    rw [hlookup] at he
    split_ifs at he
    exact hnoTtl n k e he

/-- A call keeps a cluster healthy. -/
theorem healthy (h : ServedAlive hashToInt c op r c') (hc : c.Healthy hashToInt) :
    c'.Healthy hashToInt := by
  obtain ⟨hsame, hnoTtl⟩ := h.transport hc.noTtl.transport
  obtain ⟨ws, hws, hmem⟩ := h.exists_replicaWrites
  refine hc.mono h.manager hsame hnoTtl h.rebalances fun w hw => ?_
  rw [hws] at hw
  refine (List.mem_append.mp hw).imp_right fun hw => ?_
  exact ⟨(hmem w hw).2.1, hc.mem_of_mem_owners (hmem w hw).2.2⟩

end ServedAlive

/-- What a get answers while all members are alive. -/
theorem Healthy.get_response (h : c.Healthy hashToInt) (halive : c.AllAlive clock) {key : String}
    (howners : c.manager.ring.owners hashToInt key ≠ []) :
    (c.get hashToInt clock key).1 =
      some (getResponse (c.liveCopy hashToInt (fun _ => true) key)) := by
  have hlive := liveOwners_true hashToInt c.manager key
  obtain ⟨target, rest, htarget⟩ := List.exists_cons_of_ne_nil howners
  rw [htarget] at hlive
  have hanswers : ∀ node ∈ target :: rest, c.transport.Answers node.nodeId := fun node hnode =>
    h.answers _ (h.mem_of_mem_owners (htarget ▸ hnode))
  obtain ⟨manager, transport, hget, -, -⟩ :=
    get_eq (h.steady halive key) hlive hanswers h.noTtl.transport
  rw [hget]

/-- A get reads the entry that some owner has, when no owner has another one. -/
theorem Healthy.get_reads (h : c.Healthy hashToInt) (halive : c.AllAlive clock) {key : String}
    {entry : CacheEntry V} {node : NodeConfig}
    (hnode : node ∈ c.manager.ring.owners hashToInt key)
    (hfound : c.transport.lookup node.nodeId key = some entry)
    (hagree : ∀ x ∈ c.manager.ring.owners hashToInt key,
      c.transport.lookup x.nodeId key = none ∨ c.transport.lookup x.nodeId key = some entry) :
    ∃ r, (c.get hashToInt clock key).1 = some r ∧ r.Reads entry.value := by
  refine ⟨_, h.get_response halive (List.ne_nil_of_mem hnode), ?_⟩
  have hlive := liveOwners_true hashToInt c.manager key
  have hcopy := map_snd_liveCopy (hlive ▸ hnode) hfound (hlive ▸ hagree)
  rw [← hcopy]
  cases c.liveCopy hashToInt (fun _ => true) key with
  | none => exact ⟨rfl, rfl, rfl⟩
  | some copy => exact ⟨rfl, rfl, rfl, rfl⟩

/-- A get finds the value that the first owner has. -/
theorem Healthy.get_is_found (h : c.Healthy hashToInt) (halive : c.AllAlive clock) {key : String}
    {target : NodeConfig} {rest : List NodeConfig}
    (howners : c.manager.ring.owners hashToInt key = target :: rest) {v : V}
    (hfound : c.transport.lookup target.nodeId key = some (.plain v)) :
    ∃ r, (c.get hashToInt clock key).1 = some r ∧ r.Is (.found v) := by
  refine ⟨_, h.get_response halive (by rw [howners]; exact List.cons_ne_nil _ _), ?_⟩
  have hcopy : c.liveCopy hashToInt (fun _ => true) key = some (target.nodeId, v) := by
    rw [liveCopy, liveOwners_true, howners, List.findSome?_cons, hfound]
    rfl
  rw [hcopy]
  exact ⟨rfl, rfl, rfl⟩

/-- A get misses a key that no owner has. -/
theorem Healthy.get_is_missing (h : c.Healthy hashToInt) (halive : c.AllAlive clock)
    {key : String} (howners : c.manager.ring.owners hashToInt key ≠ [])
    (hnone : ∀ x ∈ c.manager.ring.owners hashToInt key,
      c.transport.lookup x.nodeId key = none) :
    ∃ r, (c.get hashToInt clock key).1 = some r ∧ r.Is .missing := by
  refine ⟨_, h.get_response halive howners, ?_⟩
  have hcopy : c.liveCopy hashToInt (fun _ => true) key = none :=
    liveCopy_eq_none (liveOwners_true hashToInt c.manager key ▸ hnone)
  rw [hcopy]
  exact ⟨rfl, rfl⟩

/-- A get answers as the map does when the owners have the value of the map. -/
theorem Healthy.get_is_answer (h : c.Healthy hashToInt) (halive : c.AllAlive clock)
    {key : String} (howners : c.manager.ring.owners hashToInt key ≠ []) {m : KeyValueMap V}
    (hmirror : ∀ x ∈ c.manager.ring.owners hashToInt key,
      c.transport.lookup x.nodeId key = (m key).map .plain) :
    ∃ r, (c.get hashToInt clock key).1 = some r ∧ r.Is ((ClientOp.get key).answer m) := by
  rw [ClientOp.answer]
  cases hm : m key with
  | none =>
    rw [hm] at hmirror
    exact h.get_is_missing halive howners hmirror
  | some v =>
    rw [hm] at hmirror
    obtain ⟨node, hnode⟩ := List.exists_mem_of_ne_nil _ howners
    obtain ⟨r, hr, -, his⟩ :=
      h.get_reads halive hnode (hmirror node hnode) fun x hx => Or.inr (hmirror x hx)
    exact ⟨r, hr, his⟩

end DistributedCacheCluster

/-- A cluster with the map of the acknowledged client calls. -/
structure Observed (V : Type*) where
  cluster : DistributedCacheCluster V
  map : KeyValueMap V

end DistributedCache
