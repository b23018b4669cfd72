import DistributedCache.Cluster.ConcurrentCalls
import DistributedCache.Cluster.KeyValueMap

/-!
# Overlapping calls are linearizable

While the membership stays as it is and the primary of a key serves it, the primary alone decides:
a call takes effect when the primary carries its request out, and the calls are answered as if
they had been made one after another at these moments, whatever the background loop does with
the writes of the replicas and whichever calls raise.

The replica answers where the primary misses. The value that it has then was put after the miss,
and the get may be moved behind that put; but if the key is deleted at some time the value may be
one that was deleted, and the answer is left out of account.

## Main definitions

* `Call.onMap`, `Response.Tells` : the calls on a map.
* `Trace.Undisturbed` : the events of a gateway with a fixed membership.
* `Excused` : the answers that are left out of account.
* `Explains` : the invariant.

## Main results

* `Explains.step` : the calls of a run stay linearizable.
* `overlapping_calls_linearizable` : they are linearizable at every moment.
-/

namespace DistributedCache

open Library Library.Linearizable DistributedCacheCluster

variable {V : Type*} {hashToInt : String → ℕ}

/-! ### The calls on a map -/

namespace Call

/-- The call as one about a key, with a value other than `None` and without a lifetime. -/
def clientOp? : Call V → Option (ClientOp V)
  | .put key (some value) none => some (.put key value)
  | .get key => some (.get key)
  | .delete key => some (.delete key)
  | _ => none

/-- The call on a map; a map knows nothing of heartbeats. -/
def onMap (m : KeyValueMap V) (call : Call V) : KeyValueMap V × Option (Answer V) :=
  match call.clientOp? with
  | some op => (op.run m, some (op.answer m))
  | none => (m, none)

/-- The call changes neither the membership nor lifetimes, and puts no `None`. -/
def Plain : Call V → Prop
  | .put _ value ttlSeconds => value.isSome = true ∧ ttlSeconds = none
  | .get _ | .delete _ | .heartbeat _ => True
  | .addNode _ _ | .removeNode _ => False

instance : DecidablePred (Plain (V := V))
  | .put _ value ttlSeconds => inferInstanceAs (Decidable (value.isSome = true ∧ ttlSeconds = none))
  | .get _ | .delete _ | .heartbeat _ => isTrue trivial
  | .addNode _ _ | .removeNode _ => isFalse id

end Call

/-- The response tells the answer of the map, where the map has one. -/
def Response.Tells (r : Response V) : Option (Answer V) → Prop
  | some answer => r.Is answer
  | none => True

/-- A call on a map with its answer. -/
abbrev MapCall (V : Type*) : Type _ := Entry ℕ (Call V) (Option (Answer V))

/-- Refused calls are left out of account, and so are gets of keys that are deleted at some time,
when the replica answers them. -/
def Excused (hashToInt : String → ℕ) (ring : ConsistentHashRing) (history : CallHistory V) (id : ℕ)
    (r : Response V) : Prop :=
  r.Is .unavailable ∨ ∃ key other replica, .invoke id (.get key) ∈ history ∧
    .invoke other (.delete key) ∈ history ∧ (ring.ownerPair hashToInt key).2 = some replica ∧
    r.servedBy = some replica.nodeId

/-- The call that arrives, with the readings of the clock that it makes. -/
def GatewayEvent.arrival? : GatewayEvent V → Option (Clock × Call V)
  | .arrive clock call => some (clock, call)
  | _ => none

/-- The node and the key of the put that an event carries out. -/
def Gateway.putCell (hashToInt : String → ℕ) (g : Gateway V) :
    GatewayEvent V → Option (String × String)
  | .perform id _ =>
    match g.calls id with
    | some (.asking (.put _ target key _ _)) => some (target.nodeId, key)
    | _ => none
  | .background s => g.cluster.putCell hashToInt (.background s)
  | _ => none

namespace Trace

/-- The calls that arrive are about keys or are heartbeats, no replica serves a key in place of
its primary, and no put evicts an entry. -/
structure Undisturbed (hashToInt : String → ℕ) (x : Trace V) (e : GatewayEvent V) : Prop where
  plain : ∀ p ∈ e.arrival?, p.2.Plain
  primary : ∀ p ∈ e.arrival?, ∀ op ∈ p.2.clientOp?, ∀ target ∈
    (x.gateway.cluster.manager.routeForKey hashToInt p.1 op.key).servedBy,
      (x.gateway.cluster.manager.ring.ownerPair hashToInt op.key).1 = some target
  room : ∀ cell ∈ x.gateway.putCell hashToInt e,
    x.gateway.cluster.transport.HasRoom cell.1 cell.2

instance (x : Trace V) (e : GatewayEvent V) : Decidable (x.Undisturbed hashToInt e) :=
  decidable_of_iff (_ ∧ _ ∧ _) ⟨fun h => ⟨h.1, h.2.1, h.2.2⟩, fun h => ⟨h.1, h.2, h.3⟩⟩

end Trace

variable {ring : ConsistentHashRing} {m : KeyValueMap V} {calls calls' : List (MapCall V)}
  {history history' : CallHistory V} {key : String} {v : V}

theorem after_append_put (m : KeyValueMap V) (calls : List (MapCall V)) (id : ℕ) (key : String)
    (v : V) (answer : Option (Answer V)) :
    after Call.onMap m (calls ++ [⟨id, .put key (some v) none, answer⟩]) =
      Function.update (after Call.onMap m calls) key (some v) := after_append _ _

theorem after_append_delete (m : KeyValueMap V) (calls : List (MapCall V)) (id : ℕ) (key : String)
    (answer : Option (Answer V)) :
    after Call.onMap m (calls ++ [⟨id, .delete key, answer⟩]) =
      Function.update (after Call.onMap m calls) key none := after_append _ _

@[simp] theorem fst_onMap_get (m : KeyValueMap V) (key : String) :
    (Call.onMap m (.get key)).1 = m := Function.update_eq_self key m

@[simp] theorem fst_onMap_put (m : KeyValueMap V) (key : String) (v : V) :
    (Call.onMap m (.put key (some v) none)).1 = Function.update m key (some v) := rfl

@[simp] theorem snd_onMap_get (m : KeyValueMap V) (key : String) :
    (Call.onMap m (.get key)).2 = some ((m key).elim .missing .found) := rfl

theorem after_append_get (m : KeyValueMap V) (calls : List (MapCall V)) (id : ℕ) (key : String)
    (answer : Option (Answer V)) :
    after Call.onMap m (calls ++ [⟨id, .get key, answer⟩]) = after Call.onMap m calls := by
  rw [after_append, after_singleton, fst_onMap_get]

theorem after_append_heartbeat (m : KeyValueMap V) (calls : List (MapCall V)) (id : ℕ)
    (nodeId : String) (answer : Option (Answer V)) :
    after Call.onMap m (calls ++ [⟨id, .heartbeat nodeId, answer⟩]) = after Call.onMap m calls := by
  rw [after_append]
  rfl

/-- A call that is not a delete of the key leaves a value there. -/
private theorem isSome_onMap {call : Call V} (hcall : call ≠ .delete key) (h : (m key).isSome) :
    ((Call.onMap m call).1 key).isSome := by
  rw [Call.onMap]
  cases hop : call.clientOp? with
  | none => exact h
  | some op =>
    dsimp only
    by_cases hkey : key = op.key
    · rw [ClientOp.run, hkey, Function.update_self]
      cases op with
      | put k value => rfl
      | get k =>
        obtain rfl : key = k := hkey
        exact h
      | delete k =>
        refine absurd ?_ hcall
        unfold Call.clientOp? at hop
        split at hop
        · cases Option.some.inj hop
        · cases Option.some.inj hop
        · obtain rfl := ClientOp.delete.inj (Option.some.inj hop)
          rw [hkey]
          rfl
        · cases hop
    · rwa [ClientOp.run, Function.update_of_ne hkey]

/-- Without deletes of the key a value there stays. -/
private theorem isSome_after (hcalls : ∀ e ∈ calls, e.op ≠ .delete key) (h : (m key).isSome) :
    (after Call.onMap m calls key).isSome := by
  induction calls generalizing m with
  | nil => exact h
  | cons e calls ih =>
    exact ih (fun e' he' => hcalls e' (List.mem_cons_of_mem _ he'))
      (isSome_onMap (hcalls e List.mem_cons_self) h)

/-! ### Requests at a node -/

namespace NodeTransport

variable {t t' : NodeTransport V} {clock : Clock} {routing : RoutingDecision}
  {target replica : NodeConfig} {reply : NodeReply V}

private theorem answering_of_put {value : Option V} {ttlSeconds : Option Time}
    {p : OperationResult × NodeTransport V}
    (h : t.put clock target key value ttlSeconds = some p) : t.Answers target.nodeId := by
  obtain ⟨rt, hrt, -⟩ := Option.map_eq_some_iff.mp h
  exact Option.isSome_iff_exists.mpr ⟨rt, hrt⟩

private theorem answering_of_get {p : (Bool × Option V) × NodeTransport V}
    (h : t.get clock target key = some p) : t.Answers target.nodeId := by
  obtain ⟨rt, hrt, -⟩ := Option.map_eq_some_iff.mp h
  exact Option.isSome_iff_exists.mpr ⟨rt, hrt⟩

private theorem answering_of_delete {p : OperationResult × NodeTransport V}
    (h : t.delete clock target key = some p) : t.Answers target.nodeId := by
  obtain ⟨rt, hrt, -⟩ := Option.map_eq_some_iff.mp h
  exact Option.isSome_iff_exists.mpr ⟨rt, hrt⟩

/-- A put that is carried out stores the value. -/
theorem perform_put {value : Option V} (hroom : t.HasRoom target.nodeId key)
    (h : t.perform clock (.put routing target key value none) = some (reply, t')) :
    ∃ result, reply = .written result ∧ result.ok = true ∧
      t.Writes target.nodeId key (some ⟨value, none⟩) t' := by
  obtain ⟨p, hput, heq⟩ := Option.map_eq_some_iff.mp h
  obtain ⟨rfl, rfl⟩ := Prod.mk.inj heq
  obtain ⟨result, t'', hput', hok, hwrites⟩ := put_eq (answering_of_put hput) hroom clock value
  obtain rfl := Option.some.inj (hput.symm.trans hput')
  exact ⟨result, rfl, hok, hwrites⟩

private theorem read_of_get (httl : t.NoTtl) {p : (Bool × Option V) × NodeTransport V}
    (h : t.get clock target key = some p) :
    p.1 = (((t.lookup target.nodeId key).bind CacheEntry.value).isSome,
        (t.lookup target.nodeId key).bind CacheEntry.value) ∧ Keeps t p.2 := by
  obtain ⟨t'', hget, hkeeps⟩ := get_eq (answering_of_get h) httl clock key
  obtain rfl := Option.some.inj (h.symm.trans hget)
  exact ⟨rfl, hkeeps⟩

/-- A get that is carried out reads the value. -/
theorem perform_get (httl : t.NoTtl)
    (h : t.perform clock (.get routing target key) = some (reply, t')) :
    reply = .read ((t.lookup target.nodeId key).bind CacheEntry.value).isSome
        ((t.lookup target.nodeId key).bind CacheEntry.value) ∧ Keeps t t' := by
  obtain ⟨p, hget, heq⟩ := Option.map_eq_some_iff.mp h
  obtain ⟨rfl, rfl⟩ := Prod.mk.inj heq
  obtain ⟨hread, hkeeps⟩ := read_of_get httl hget
  exact ⟨by rw [hread], hkeeps⟩

theorem perform_getReplica (httl : t.NoTtl)
    (h : t.perform clock (.getReplica replica key) = some (reply, t')) :
    reply = .read ((t.lookup replica.nodeId key).bind CacheEntry.value).isSome
        ((t.lookup replica.nodeId key).bind CacheEntry.value) ∧ Keeps t t' := by
  obtain ⟨p, hget, heq⟩ := Option.map_eq_some_iff.mp h
  obtain ⟨rfl, rfl⟩ := Prod.mk.inj heq
  obtain ⟨hread, hkeeps⟩ := read_of_get httl hget
  exact ⟨by rw [hread], hkeeps⟩

/-- A delete that is carried out erases the entry, and is refused where there is none. -/
theorem perform_delete (h : t.perform clock (.delete routing target key) = some (reply, t')) :
    ∃ result, reply = .written result ∧ result.ok = (t.lookup target.nodeId key).isSome ∧
      (result.ok = false → result.statusCode = 404) ∧ t.Writes target.nodeId key none t' := by
  obtain ⟨p, hdelete, heq⟩ := Option.map_eq_some_iff.mp h
  obtain ⟨rfl, rfl⟩ := Prod.mk.inj heq
  obtain ⟨result, t'', hdelete', hok, hcode, hwrites⟩ :=
    delete_eq (answering_of_delete hdelete) clock key
  obtain rfl := Option.some.inj (hdelete.symm.trans hdelete')
  exact ⟨result, rfl, hok, hcode, hwrites⟩

theorem perform_deleteReplica
    (h : t.perform clock (.deleteReplica target replica key) = some (reply, t')) :
    ∃ result, reply = .written result ∧ t.Writes replica.nodeId key none t' := by
  obtain ⟨p, hdelete, heq⟩ := Option.map_eq_some_iff.mp h
  obtain ⟨rfl, rfl⟩ := Prod.mk.inj heq
  obtain ⟨result, t'', hdelete', -, -, hwrites⟩ := delete_eq (answering_of_delete hdelete) clock key
  obtain rfl := Option.some.inj (hdelete.symm.trans hdelete')
  exact ⟨result, rfl, hwrites⟩

theorem perform_heartbeat {nodeId : String}
    (h : t.perform clock (.heartbeat nodeId target) = some (reply, t')) :
    reply = .noted ∧ Keeps t t' := by
  obtain ⟨t'', hbeat, heq⟩ := Option.map_eq_some_iff.mp h
  obtain ⟨rfl, rfl⟩ := Prod.mk.inj heq
  have hanswers : t.Answers target.nodeId := by
    obtain ⟨rt, hrt, -⟩ := Option.map_eq_some_iff.mp hbeat
    exact Option.isSome_iff_exists.mpr ⟨rt, hrt⟩
  obtain ⟨t₁, hbeat', hkeeps⟩ := heartbeat_eq hanswers (clock 0)
  obtain rfl := Option.some.inj (hbeat.symm.trans hbeat')
  exact ⟨rfl, hkeeps⟩

end NodeTransport

/-! ### The invariant -/

/-- The key had the value at first, or was given it by one of the calls. -/
def PutBefore (m : KeyValueMap V) (calls : List (MapCall V)) (key : String) (v : V) : Prop :=
  m key = some v ∨ ∃ e ∈ calls, e.op = .put key (some v) none

theorem PutBefore.mono (h : PutBefore m calls key v)
    (hle : ∀ e ∈ calls, ∃ e' ∈ calls', e'.op = e.op) : PutBefore m calls' key v := by
  refine h.imp_right fun ⟨e, he, hop⟩ => ?_
  obtain ⟨e', he', hop'⟩ := hle e he
  exact ⟨e', he', hop'.trans hop⟩

/-- The primaries have what the map has after the calls. What the replicas have or will be given
was put by a call, unless the key is deleted at some time. -/
structure Mirrored (hashToInt : String → ℕ) (ring : ConsistentHashRing) (m : KeyValueMap V)
    (calls : List (MapCall V)) (history : CallHistory V) (c : DistributedCacheCluster V) :
    Prop where
  ring_eq : c.manager.ring = ring
  noTtl : c.transport.NoTtl
  done : ∀ task ∈ c.rebalances, task.Done
  primary : ∀ key target, (ring.ownerPair hashToInt key).1 = some target →
    c.transport.lookup target.nodeId key = (after Call.onMap m calls key).map .plain
  replica : ∀ key replica, (ring.ownerPair hashToInt key).2 = some replica →
    (∀ id, .invoke id (.delete key) ∉ history) → ∀ entry,
      c.transport.lookup replica.nodeId key = some entry →
        ∃ v, entry = .plain v ∧ PutBefore m calls key v
  pending : ∀ w ∈ c.replicaWrites, (ring.ownerPair hashToInt w.key).2 = some w.node ∧
    ∃ v, w.value = some v ∧ w.ttlSeconds = none ∧ PutBefore m calls w.key v

/-- Where a call about a key stands: its primary has not carried it out, or the call is among
`calls` with the answer that it will give, or that the replica will overrule. -/
inductive Waits (hashToInt : String → ℕ) (ring : ConsistentHashRing) (m : KeyValueMap V)
    (calls : List (MapCall V)) (history : CallHistory V) (id : ℕ) : CallState V → Prop
  | put {routing : RoutingDecision} {target : NodeConfig} {key : String} {v : V}
      (hprimary : (ring.ownerPair hashToInt key).1 = some target)
      (hreplica : routing.replica = (ring.ownerPair hashToInt key).2)
      (hinvoked : .invoke id (.put key (some v) none) ∈ history) (hnew : ∀ e ∈ calls, e.id ≠ id) :
      Waits hashToInt ring m calls history id (.asking (.put routing target key (some v) none))
  | stored {routing : RoutingDecision} {target : NodeConfig} {key : String} {v : V}
      {result : OperationResult} (hreplica : routing.replica = (ring.ownerPair hashToInt key).2)
      (hok : result.ok = true) (hmem : ⟨id, .put key (some v) none, some .stored⟩ ∈ calls) :
      Waits hashToInt ring m calls history id
        (.replied (.put routing target key (some v) none) (.written result))
  | get {routing : RoutingDecision} {target : NodeConfig} {key : String}
      (hprimary : (ring.ownerPair hashToInt key).1 = some target)
      (hreplica : routing.replica = (ring.ownerPair hashToInt key).2)
      (hinvoked : .invoke id (.get key) ∈ history) (hnew : ∀ e ∈ calls, e.id ≠ id) :
      Waits hashToInt ring m calls history id (.asking (.get routing target key))
  | read {routing : RoutingDecision} {target : NodeConfig} {key : String} {value : Option V}
      (hreplica : routing.replica = (ring.ownerPair hashToInt key).2)
      (hmem : ⟨id, .get key, some (value.elim .missing .found)⟩ ∈ calls) :
      Waits hashToInt ring m calls history id
        (.replied (.get routing target key) (.read value.isSome value))
  | getReplica {replica : NodeConfig} {key : String}
      (hreplica : (ring.ownerPair hashToInt key).2 = some replica)
      (hmem : ⟨id, .get key, some .missing⟩ ∈ calls) :
      Waits hashToInt ring m calls history id (.asking (.getReplica replica key))
  | readReplica {replica : NodeConfig} {key : String} {value : Option V}
      (hreplica : (ring.ownerPair hashToInt key).2 = some replica)
      (hmem : ⟨id, .get key, some .missing⟩ ∈ calls)
      (hput : (∀ other, .invoke other (.delete key) ∉ history) → ∀ v, value = some v →
        PutBefore m calls key v) :
      Waits hashToInt ring m calls history id
        (.replied (.getReplica replica key) (.read value.isSome value))
  | delete {routing : RoutingDecision} {target : NodeConfig} {key : String}
      (hprimary : (ring.ownerPair hashToInt key).1 = some target)
      (hreplica : routing.replica = (ring.ownerPair hashToInt key).2)
      (hinvoked : .invoke id (.delete key) ∈ history) (hnew : ∀ e ∈ calls, e.id ≠ id) :
      Waits hashToInt ring m calls history id (.asking (.delete routing target key))
  | erased {routing : RoutingDecision} {target : NodeConfig} {key : String}
      {result : OperationResult} (hreplica : routing.replica = (ring.ownerPair hashToInt key).2)
      (hcode : result.ok = false → result.statusCode = 404)
      (hmem : ⟨id, .delete key, some (if result.ok then .deleted else .missing)⟩ ∈ calls) :
      Waits hashToInt ring m calls history id
        (.replied (.delete routing target key) (.written result))
  | deleteReplica {target replica : NodeConfig} {key : String}
      (hreplica : (ring.ownerPair hashToInt key).2 = some replica)
      (hmem : ⟨id, .delete key, some .deleted⟩ ∈ calls) :
      Waits hashToInt ring m calls history id (.asking (.deleteReplica target replica key))
  | erasedReplica {target replica : NodeConfig} {key : String} {result : OperationResult}
      (hmem : ⟨id, .delete key, some .deleted⟩ ∈ calls) :
      Waits hashToInt ring m calls history id
        (.replied (.deleteReplica target replica key) (.written result))
  | heartbeat {nodeId : String} {node : NodeConfig}
      (hmem : ⟨id, .heartbeat nodeId, none⟩ ∈ calls) :
      Waits hashToInt ring m calls history id (.asking (.heartbeat nodeId node))
  | noted {nodeId : String} {node : NodeConfig}
      (hmem : ⟨id, .heartbeat nodeId, none⟩ ∈ calls) :
      Waits hashToInt ring m calls history id (.replied (.heartbeat nodeId node) .noted)

/-- The calls `calls`, one after another, explain the history of the gateway, and the nodes and
the waiting calls stand where they say. -/
structure Explains (hashToInt : String → ℕ) (ring : ConsistentHashRing) (m : KeyValueMap V)
    (calls : List (MapCall V)) (x : Trace V) : Prop where
  lin : Linearization Call.onMap Response.Tells m x.history
    (Excused hashToInt ring x.history) calls
  mirrored : Mirrored hashToInt ring m calls x.history x.gateway.cluster
  arrived : ∀ id, (∃ call, .invoke id call ∈ x.history) ∨ Responded x.history id →
    id < x.gateway.arrived
  waits : ∀ id state, x.gateway.calls id = some state →
    ¬Responded x.history id ∧ Waits hashToInt ring m calls x.history id state

/-! ### What does not concern a call -/

/-- The calls `calls'` are those of `calls`, but for the call `id`. -/
structure SameBut (id : ℕ) (calls calls' : List (MapCall V)) : Prop where
  mem_iff : ∀ e, e.id ≠ id → (e ∈ calls' ↔ e ∈ calls)
  ops : ∀ e ∈ calls, ∃ e' ∈ calls', e'.op = e.op

theorem SameBut.refl (id : ℕ) (calls : List (MapCall V)) : SameBut id calls calls :=
  ⟨fun _ _ => Iff.rfl, fun e he => ⟨e, he, rfl⟩⟩

theorem SameBut.concat (e : MapCall V) (calls : List (MapCall V)) :
    SameBut e.id calls (calls ++ [e]) := by
  refine ⟨fun e' hne => ?_, fun e' he' => ⟨e', List.mem_append_left _ he', rfl⟩⟩
  rw [List.mem_append, List.mem_singleton, or_iff_left]
  rintro rfl
  exact hne rfl

theorem Waits.mono {id other : ℕ} {state : CallState V}
    (h : Waits hashToInt ring m calls history other state) (hsame : SameBut id calls calls')
    (hne : other ≠ id) (hsub : history ⊆ history') :
    Waits hashToInt ring m calls' history' other state := by
  have hnew : (∀ e ∈ calls, e.id ≠ other) → ∀ e ∈ calls', e.id ≠ other := by
    rintro hnew e he rfl
    exact hnew e ((hsame.mem_iff e hne).mp he) rfl
  have hmem : ∀ {call answer}, ⟨other, call, answer⟩ ∈ calls →
      (⟨other, call, answer⟩ : MapCall V) ∈ calls' := fun hmem => (hsame.mem_iff _ hne).mpr hmem
  cases h with
  | put hprimary hreplica hinvoked h => exact .put hprimary hreplica (hsub hinvoked) (hnew h)
  | stored hreplica hok h => exact .stored hreplica hok (hmem h)
  | get hprimary hreplica hinvoked h => exact .get hprimary hreplica (hsub hinvoked) (hnew h)
  | read hreplica h => exact .read hreplica (hmem h)
  | getReplica hreplica h => exact .getReplica hreplica (hmem h)
  | readReplica hreplica h hput =>
    refine .readReplica hreplica (hmem h) fun hdeleted v hv => ?_
    exact (hput (fun other hin => hdeleted other (hsub hin)) v hv).mono hsame.ops
  | delete hprimary hreplica hinvoked h => exact .delete hprimary hreplica (hsub hinvoked) (hnew h)
  | erased hreplica hcode h => exact .erased hreplica hcode (hmem h)
  | deleteReplica hreplica h => exact .deleteReplica hreplica (hmem h)
  | erasedReplica h => exact .erasedReplica (hmem h)
  | heartbeat h => exact .heartbeat (hmem h)
  | noted h => exact .noted (hmem h)

/-! ### The nodes and the map -/

private theorem owners_ne {target replica : NodeConfig}
    (hprimary : (ring.ownerPair hashToInt key).1 = some target)
    (hreplica : (ring.ownerPair hashToInt key).2 = some replica) :
    target.nodeId ≠ replica.nodeId := by
  have hnodup := ConsistentHashRing.nodup_ownerIds hashToInt ring key
  rw [ConsistentHashRing.ownerIds, ConsistentHashRing.owners, hprimary, hreplica] at hnodup
  exact List.pairwise_pair.mp hnodup

namespace Mirrored

variable {c : DistributedCacheCluster V} {t' : NodeTransport V}

theorem mono (h : Mirrored hashToInt ring m calls history c)
    (hafter : after Call.onMap m calls' = after Call.onMap m calls)
    (hops : ∀ e ∈ calls, ∃ e' ∈ calls', e'.op = e.op) (hsub : history ⊆ history') :
    Mirrored hashToInt ring m calls' history' c where
  ring_eq := h.ring_eq
  noTtl := h.noTtl
  done := h.done
  primary key target hprimary := by rw [hafter, h.primary key target hprimary]
  replica key replica hreplica hdeleted entry hentry := by
    obtain ⟨v, hv, hput⟩ :=
      h.replica key replica hreplica (fun id hid => hdeleted id (hsub hid)) entry hentry
    exact ⟨v, hv, hput.mono hops⟩
  pending w hw := by
    obtain ⟨hnode, v, hv, httl, hput⟩ := h.pending w hw
    exact ⟨hnode, v, hv, httl, hput.mono hops⟩

theorem keeps (h : Mirrored hashToInt ring m calls history c) (hkeeps : c.transport.Keeps t') :
    Mirrored hashToInt ring m calls history { c with transport := t' } where
  ring_eq := h.ring_eq
  noTtl := h.noTtl.keeps hkeeps
  done := h.done
  primary key target hprimary := (hkeeps.lookup _ _).trans (h.primary key target hprimary)
  replica key replica hreplica hdeleted entry hentry :=
    h.replica key replica hreplica hdeleted entry ((hkeeps.lookup _ _).symm.trans hentry)
  pending := h.pending

theorem manager {manager : ClusterManager} (h : Mirrored hashToInt ring m calls history c)
    (hm : HeartbeatOnly c.manager manager) :
    Mirrored hashToInt ring m calls history { c with manager := manager } :=
  { h with ring_eq := hm.ring.trans h.ring_eq }

/-- The primary carries a put out. -/
theorem put (h : Mirrored hashToInt ring m calls history c) {target : NodeConfig}
    (hprimary : (ring.ownerPair hashToInt key).1 = some target)
    (hw : c.transport.Writes target.nodeId key (some ⟨some v, none⟩) t') (id : ℕ)
    (answer : Option (Answer V)) :
    Mirrored hashToInt ring m (calls ++ [⟨id, .put key (some v) none, answer⟩]) history
      { c with transport := t' } where
  ring_eq := h.ring_eq
  noTtl := h.noTtl.writes hw fun e he => by rw [← Option.some.inj he]
  done := h.done
  primary k target' hprimary' := by
    rw [after_append_put, Function.update_apply]
    refine (hw.lookup _ _).trans ?_
    by_cases hk : k = key
    · subst hk
      obtain rfl := Option.some.inj (hprimary.symm.trans hprimary')
      rw [if_pos ⟨rfl, rfl⟩, if_pos rfl]
      rfl
    · rw [if_neg fun hc => hk hc.2, if_neg hk, h.primary k target' hprimary']
  replica k replica hreplica hdeleted entry hentry := by
    have hops := (SameBut.concat ⟨id, .put key (some v) none, answer⟩ calls).ops
    rw [hw.lookup] at hentry
    by_cases hk : replica.nodeId = target.nodeId ∧ k = key
    · obtain ⟨hid, rfl⟩ := hk
      exact absurd hid.symm (owners_ne hprimary hreplica)
    · rw [if_neg hk] at hentry
      obtain ⟨v', hv', hput⟩ := h.replica k replica hreplica hdeleted entry hentry
      exact ⟨v', hv', hput.mono hops⟩
  pending w hw' := by
    obtain ⟨hnode, v', hv', httl, hput⟩ := h.pending w hw'
    exact ⟨hnode, v', hv', httl, hput.mono (SameBut.concat _ calls).ops⟩

/-- The primary carries a delete out. -/
theorem delete (h : Mirrored hashToInt ring m calls history c) {target : NodeConfig}
    (hprimary : (ring.ownerPair hashToInt key).1 = some target)
    (hw : c.transport.Writes target.nodeId key none t') {id : ℕ}
    (hinvoked : .invoke id (.delete key) ∈ history) (answer : Option (Answer V)) :
    Mirrored hashToInt ring m (calls ++ [⟨id, .delete key, answer⟩]) history
      { c with transport := t' } where
  ring_eq := h.ring_eq
  noTtl := h.noTtl.writes hw fun e he => by cases he
  done := h.done
  primary k target' hprimary' := by
    rw [after_append_delete, Function.update_apply]
    refine (hw.lookup _ _).trans ?_
    by_cases hk : k = key
    · subst hk
      obtain rfl := Option.some.inj (hprimary.symm.trans hprimary')
      rw [if_pos ⟨rfl, rfl⟩, if_pos rfl]
      rfl
    · rw [if_neg fun hc => hk hc.2, if_neg hk, h.primary k target' hprimary']
  replica k replica hreplica hdeleted entry hentry := by
    have hk : k ≠ key := by
      rintro rfl
      exact hdeleted id hinvoked
    rw [hw.lookup, if_neg fun hc => hk hc.2] at hentry
    obtain ⟨v', hv', hput⟩ := h.replica k replica hreplica hdeleted entry hentry
    exact ⟨v', hv', hput.mono (SameBut.concat _ calls).ops⟩
  pending w hw' := by
    obtain ⟨hnode, v', hv', httl, hput⟩ := h.pending w hw'
    exact ⟨hnode, v', hv', httl, hput.mono (SameBut.concat _ calls).ops⟩

/-- The replica carries a put or a delete out. -/
theorem writeReplica (h : Mirrored hashToInt ring m calls history c) {replica : NodeConfig}
    (hreplica : (ring.ownerPair hashToInt key).2 = some replica) (value : Option V)
    (hw : c.transport.Writes replica.nodeId key (value.map .plain) t')
    (hput : ∀ v, value = some v → PutBefore m calls key v) :
    Mirrored hashToInt ring m calls history { c with transport := t' } where
  ring_eq := h.ring_eq
  noTtl := h.noTtl.writes hw fun e he => by
    obtain ⟨v, -, rfl⟩ := Option.map_eq_some_iff.mp he
    rfl
  done := h.done
  primary k target hprimary := by
    refine (hw.lookup _ _).trans ?_
    rw [if_neg, h.primary k target hprimary]
    rintro ⟨hid, rfl⟩
    exact owners_ne hprimary hreplica hid
  replica k replica' hreplica' hdeleted entry hentry := by
    rw [hw.lookup] at hentry
    by_cases hk : replica'.nodeId = replica.nodeId ∧ k = key
    · rw [if_pos hk] at hentry
      obtain ⟨-, rfl⟩ := hk
      obtain ⟨v, hv, rfl⟩ := Option.map_eq_some_iff.mp hentry
      exact ⟨v, rfl, hput v hv⟩
    · rw [if_neg hk] at hentry
      exact h.replica k replica' hreplica' hdeleted entry hentry
  pending := h.pending

/-- The background loop takes a step. -/
theorem background (h : Mirrored hashToInt ring m calls history c) {s : BackgroundStep}
    {c' : DistributedCacheCluster V}
    (hroom : ∀ cell, c.putCell hashToInt (.background s) = some cell →
      c.transport.HasRoom cell.1 cell.2)
    (hs : c.runBackground hashToInt s = some c') :
    Mirrored hashToInt ring m calls history c' := by
  rcases runBackground_of_done h.done hs with ⟨index, clock, outcome, rfl⟩ | ⟨nodeId, now, rfl⟩
  · obtain ⟨w, hw, rfl⟩ := runBackground_replicate hs
    obtain ⟨hnode, v, hv, httl, hput⟩ := h.pending w (List.mem_of_getElem? hw)
    have hroom' : outcome = .carriedOut → c.transport.HasRoom w.node.nodeId w.key := by
      rintro rfl
      exact hroom (w.node.nodeId, w.key) (by rw [DistributedCacheCluster.putCell, hw]; rfl)
    have htransport : Mirrored hashToInt ring m calls history { c with
        transport := c.transport.limitedPut clock outcome w.node w.key w.value w.ttlSeconds } := by
      rw [httl, hv]
      rcases NodeTransport.limitedPut_eq clock hroom' (some v) with ⟨-, -, hwrites⟩ | ⟨-, heq⟩
      · refine h.writeReplica hnode (some v) hwrites fun v' hv' => ?_
        rwa [← Option.some.inj hv']
      · rw [heq]
        exact h
    exact { htransport with
      pending := fun w' hw' => h.pending w' (List.mem_of_mem_eraseIdx hw') }
  · obtain rfl := Option.some.inj hs
    exact h.keeps (NodeTransport.keeps_cleanup h.noTtl now nodeId)

end Mirrored

/-! ### Steps of the gateway -/

theorem Excused.mono {id : ℕ} {r : Response V} (h : Excused hashToInt ring history id r)
    (hsub : history ⊆ history') : Excused hashToInt ring history' id r :=
  h.imp_right fun ⟨key, other, replica, hget, hdelete, hreplica⟩ =>
    ⟨key, other, replica, hsub hget, hsub hdelete, hreplica⟩

namespace Explains

variable {x : Trace V} {id : ℕ} {c : DistributedCacheCluster V}

/-- A call goes on to wait. -/
theorem wait (h : Explains hashToInt ring m calls x) (hopen : ¬Responded x.history id)
    (hsame : SameBut id calls calls') (hlin : Linearization Call.onMap Response.Tells m x.history
      (Excused hashToInt ring x.history) calls')
    (hmirrored : Mirrored hashToInt ring m calls' x.history c) {state : CallState V}
    (hstate : Waits hashToInt ring m calls' x.history id state) :
    Explains hashToInt ring m calls' ⟨{ x.gateway with
      cluster := c, calls := Function.update x.gateway.calls id (some state) }, x.history⟩ where
  lin := hlin
  mirrored := hmirrored
  arrived := h.arrived
  waits other state' hstate' := by
    by_cases hid : other = id
    · subst hid
      obtain rfl : state = state' := by simpa using hstate'
      exact ⟨hopen, hstate⟩
    · obtain ⟨hopen', hwaits⟩ := h.waits other state'
        ((Function.update_of_ne hid _ _).symm.trans hstate')
      exact ⟨hopen', hwaits.mono hsame hid (List.Subset.refl _)⟩

/-- A call is answered. -/
theorem answer (h : Explains hashToInt ring m calls x) (hid : id < x.gateway.arrived)
    (hsame : SameBut id calls calls') (hlin : Linearization Call.onMap Response.Tells m x.history
      (Excused hashToInt ring x.history) calls')
    (hmirrored : Mirrored hashToInt ring m calls' x.history c) {r : Response V}
    (hr : Excused hashToInt ring x.history id r ∨ ∃ e ∈ calls', e.id = id ∧ r.Tells e.answer) :
    Explains hashToInt ring m calls' ⟨{ x.gateway with
      cluster := c, calls := Function.update x.gateway.calls id none },
      x.history ++ [.respond id r]⟩ where
  lin := (hlin.respond hr).mono fun _ _ hexcused =>
    hexcused.mono (List.subset_append_left _ _)
  mirrored := hmirrored.mono rfl (SameBut.refl id calls').ops (List.subset_append_left _ _)
  arrived other hother := by
    rcases hother with ⟨call, hmem⟩ | ⟨r', hmem⟩
    · rcases List.mem_append.mp hmem with hmem | hmem
      · exact h.arrived other (Or.inl ⟨call, hmem⟩)
      · cases List.mem_singleton.mp hmem
    · rcases List.mem_append.mp hmem with hmem | hmem
      · exact h.arrived other (Or.inr ⟨r', hmem⟩)
      · obtain ⟨rfl, -⟩ := CallEvent.respond.inj (List.mem_singleton.mp hmem)
        exact hid
  waits other state' hstate' := by
    have hne : other ≠ id := by
      rintro rfl
      simp at hstate'
    obtain ⟨hopen', hwaits⟩ := h.waits other state'
      ((Function.update_of_ne hne _ _).symm.trans hstate')
    refine ⟨?_, hwaits.mono hsame hne (List.subset_append_left _ _)⟩
    rintro ⟨r', hmem⟩
    rcases List.mem_append.mp hmem with hmem | hmem
    · exact hopen' ⟨r', hmem⟩
    · exact hne (CallEvent.respond.inj (List.mem_singleton.mp hmem)).1

/-- A call raises. -/
theorem raise (h : Explains hashToInt ring m calls x) (id : ℕ) :
    Explains hashToInt ring m calls ⟨{ x.gateway with
      calls := Function.update x.gateway.calls id none }, x.history⟩ :=
  { h with
    waits := fun other state hstate => by
      have hne : other ≠ id := by
        rintro rfl
        simp at hstate
      exact h.waits other state ((Function.update_of_ne hne _ _).symm.trans hstate) }

/-- A call arrives. -/
theorem invoke (h : Explains hashToInt ring m calls x) (call : Call V) :
    Explains hashToInt ring m calls ⟨{ x.gateway with arrived := x.gateway.arrived + 1 },
      x.history ++ [.invoke x.gateway.arrived call]⟩ where
  lin := by
    refine (h.lin.invoke (fun call' hmem => ?_) call).mono fun _ _ hexcused =>
      hexcused.mono (List.subset_append_left _ _)
    exact absurd (h.arrived _ (Or.inl ⟨call', hmem⟩)) (lt_irrefl _)
  mirrored := h.mirrored.mono rfl (SameBut.refl 0 calls).ops (List.subset_append_left _ _)
  arrived other hother := by
    rcases hother with ⟨call', hmem⟩ | ⟨r, hmem⟩
    · rcases List.mem_append.mp hmem with hmem | hmem
      · exact Nat.lt_succ_of_lt (h.arrived other (Or.inl ⟨call', hmem⟩))
      · obtain ⟨rfl, -⟩ := CallEvent.invoke.inj (List.mem_singleton.mp hmem)
        exact Nat.lt_succ_self _
    · rcases List.mem_append.mp hmem with hmem | hmem
      · exact Nat.lt_succ_of_lt (h.arrived other (Or.inr ⟨r, hmem⟩))
      · cases List.mem_singleton.mp hmem
  waits other state hstate := by
    obtain ⟨hopen, hwaits⟩ := h.waits other state hstate
    refine ⟨?_, hwaits.mono (SameBut.refl (other + 1) calls) (Nat.succ_ne_self other).symm
      (List.subset_append_left _ _)⟩
    rintro ⟨r, hmem⟩
    rcases List.mem_append.mp hmem with hmem | hmem
    · exact hopen ⟨r, hmem⟩
    · cases List.mem_singleton.mp hmem

/-- A call that waits has arrived. -/
theorem lt_arrived (h : Explains hashToInt ring m calls x) {state : CallState V}
    (hstate : Waits hashToInt ring m calls x.history id state) : id < x.gateway.arrived := by
  have hcall : ∀ {call answer}, (⟨id, call, answer⟩ : MapCall V) ∈ calls →
      id < x.gateway.arrived := fun hmem =>
    h.arrived id (Or.inl ⟨_, h.lin.invoked _ hmem⟩)
  cases hstate with
  | put hprimary hreplica hinvoked hnew => exact h.arrived id (Or.inl ⟨_, hinvoked⟩)
  | get hprimary hreplica hinvoked hnew => exact h.arrived id (Or.inl ⟨_, hinvoked⟩)
  | delete hprimary hreplica hinvoked hnew => exact h.arrived id (Or.inl ⟨_, hinvoked⟩)
  | stored hreplica hok hmem => exact hcall hmem
  | read hreplica hmem => exact hcall hmem
  | getReplica hreplica hmem => exact hcall hmem
  | readReplica hreplica hmem hput => exact hcall hmem
  | erased hreplica hcode hmem => exact hcall hmem
  | deleteReplica hreplica hmem => exact hcall hmem
  | erasedReplica hmem => exact hcall hmem
  | heartbeat hmem => exact hcall hmem
  | noted hmem => exact hcall hmem

/-- What the primary has for a key reads as the map does. -/
private theorem bind_value_primary (h : Mirrored hashToInt ring m calls history c)
    {target : NodeConfig} (hprimary : (ring.ownerPair hashToInt key).1 = some target) :
    (c.transport.lookup target.nodeId key).bind CacheEntry.value = after Call.onMap m calls key := by
  rw [h.primary key target hprimary]
  cases after Call.onMap m calls key <;> rfl

/-- A node carries the request of a call out. Where it is the primary, the call takes effect. -/
theorem perform (h : Explains hashToInt ring m calls x) {await : Await V} {clock : Clock}
    {reply : NodeReply V} {transport : NodeTransport V}
    (hstate : x.gateway.calls id = some (.asking await))
    (hroom : ∀ cell, x.gateway.putCell hashToInt (.perform id clock) = some cell →
      x.gateway.cluster.transport.HasRoom cell.1 cell.2)
    (hperform : x.gateway.cluster.transport.perform clock await = some (reply, transport)) :
    ∃ calls', Explains hashToInt ring m calls' ⟨{ x.gateway with
      cluster := { x.gateway.cluster with transport := transport }
      calls := Function.update x.gateway.calls id (some (.replied await reply)) }, x.history⟩ := by
  obtain ⟨hopen, hwaits⟩ := h.waits id _ hstate
  have httl := h.mirrored.noTtl
  cases hwaits with
  | @put routing target key v hprimary hreplica hinvoked hnew =>
    have hroom' : x.gateway.cluster.transport.HasRoom target.nodeId key :=
      hroom (target.nodeId, key) (by rw [Gateway.putCell, hstate])
    obtain ⟨result, rfl, hok, hwrites⟩ := NodeTransport.perform_put hroom' hperform
    let e : MapCall V := ⟨id, .put key (some v) none, some .stored⟩
    exact ⟨calls ++ [e], h.wait hopen (.concat e calls) (h.lin.concat hinvoked hopen hnew rfl)
      (h.mirrored.put hprimary hwrites id _)
      (.stored hreplica hok (List.mem_append_right _ (List.mem_singleton_self e)))⟩
  | @get routing target key hprimary hreplica hinvoked hnew =>
    obtain ⟨rfl, hkeeps⟩ := NodeTransport.perform_get httl hperform
    rw [bind_value_primary h.mirrored hprimary]
    let e : MapCall V := ⟨id, .get key, some ((after Call.onMap m calls key).elim .missing .found)⟩
    exact ⟨calls ++ [e], h.wait hopen (.concat e calls) (h.lin.concat hinvoked hopen hnew rfl)
      ((h.mirrored.mono (after_append_get m calls id key _) (SameBut.concat e calls).ops
        (List.Subset.refl _)).keeps hkeeps)
      (.read hreplica (List.mem_append_right _ (List.mem_singleton_self e)))⟩
  | @getReplica replica key hreplica hmem =>
    obtain ⟨rfl, hkeeps⟩ := NodeTransport.perform_getReplica httl hperform
    refine ⟨calls, h.wait hopen (.refl id calls) h.lin (h.mirrored.keeps hkeeps)
      (.readReplica hreplica hmem fun hdeleted v hv => ?_)⟩
    obtain ⟨entry, hentry, hvalue⟩ := Option.bind_eq_some_iff.mp hv
    obtain ⟨v', rfl, hput⟩ := h.mirrored.replica key replica hreplica hdeleted entry hentry
    rwa [← Option.some.inj hvalue]
  | @delete routing target key hprimary hreplica hinvoked hnew =>
    obtain ⟨result, rfl, hok, hcode, hwrites⟩ := NodeTransport.perform_delete hperform
    let e : MapCall V := ⟨id, .delete key, some (if result.ok then .deleted else .missing)⟩
    have hanswer : (Call.onMap (after Call.onMap m calls) e.op).2 = e.answer := by
      change some ((after Call.onMap m calls key).elim Answer.missing fun _ => .deleted) = _
      have hsome : result.ok = (after Call.onMap m calls key).isSome := by
        rw [hok, h.mirrored.primary key target hprimary, Option.isSome_map]
      cases hkey : after Call.onMap m calls key <;> simp [e, hsome, hkey]
    exact ⟨calls ++ [e], h.wait hopen (.concat e calls) (h.lin.concat hinvoked hopen hnew hanswer)
      (h.mirrored.delete hprimary hwrites hinvoked _)
      (.erased hreplica hcode (List.mem_append_right _ (List.mem_singleton_self e)))⟩
  | @deleteReplica target replica key hreplica hmem =>
    obtain ⟨result, rfl, hwrites⟩ := NodeTransport.perform_deleteReplica hperform
    refine ⟨calls, h.wait hopen (.refl id calls) h.lin
      (h.mirrored.writeReplica hreplica none hwrites fun v hv => ?_)
      (.erasedReplica hmem)⟩
    cases hv
  | heartbeat hmem =>
    obtain ⟨rfl, hkeeps⟩ := NodeTransport.perform_heartbeat hperform
    exact ⟨calls, h.wait hopen (.refl id calls) h.lin (h.mirrored.keeps hkeeps) (.noted hmem)⟩

/-- As long as the map has no value for a key that is not deleted, none was put. -/
private theorem not_putBefore (hkeep : ∀ e ∈ calls, e.op ≠ .delete key)
    (hmissing : after Call.onMap m calls key = none) : ¬PutBefore m calls key v := by
  rintro (hm | ⟨p, hp, hop⟩)
  · have hsome := isSome_after (m := m) hkeep (by rw [hm]; rfl)
    rw [hmissing] at hsome
    cases hsome
  · obtain ⟨before, between, rfl⟩ := List.append_of_mem hp
    have hput : ((Call.onMap (after Call.onMap m before) p.op).1 key).isSome := by
      rw [hop, fst_onMap_put, Function.update_self]
      rfl
    have hsome : (after Call.onMap (Call.onMap (after Call.onMap m before) p.op).1 between
        key).isSome :=
      isSome_after (fun e he => hkeep e (List.mem_append_right _ (List.mem_cons_of_mem _ he))) hput
    rw [after_append] at hmissing
    exact Option.isSome_iff_ne_none.mp hsome hmissing

/-- A get that missed at the primary and is answered by the replica takes effect after the put of
the value, which came after the miss. -/
private theorem exists_delayed (hlin : Linearization Call.onMap Response.Tells m history
      (Excused hashToInt ring history) calls) (hopen : ¬Responded history id)
    (hmem : ⟨id, .get key, some .missing⟩ ∈ calls)
    (hdeleted : ∀ other, .invoke other (.delete key) ∉ history) (hput : PutBefore m calls key v) :
    ∃ calls', Linearization Call.onMap Response.Tells m history (Excused hashToInt ring history)
        calls' ∧ after Call.onMap m calls' = after Call.onMap m calls ∧ SameBut id calls calls' ∧
      ⟨id, .get key, some (.found v)⟩ ∈ calls' := by
  obtain ⟨calls₁, rest, rfl⟩ := List.append_of_mem hmem
  -- at the miss the map had no value, so no put of the key came before
  have hmissing : after Call.onMap m calls₁ key = none := by
    have hanswer := (legal_append.mp hlin.legal).2.1
    rw [snd_onMap_get] at hanswer
    cases hkey : after Call.onMap m calls₁ key with
    | none => rfl
    | some v' =>
      rw [hkey] at hanswer
      cases Option.some.inj hanswer
  have hnone : ¬PutBefore m calls₁ key v := not_putBefore
    (fun e he hop => hdeleted e.id (hop ▸ hlin.invoked e (List.mem_append_left _ he))) hmissing
  obtain ⟨p, hp, hop⟩ := hput.resolve_left fun hm => hnone (Or.inl hm)
  have hrest : p ∈ rest := by
    rcases List.mem_append.mp hp with hp | hp
    · exact absurd (Or.inr ⟨p, hp, hop⟩) hnone
    · refine (List.mem_cons.mp hp).resolve_left ?_
      rintro rfl
      cases hop
  obtain ⟨before, between, rfl⟩ := List.append_of_mem hrest
  have hsplit : before ++ p :: between = before ++ [p] ++ between := by
    rw [List.append_assoc, List.singleton_append]
  rw [hsplit] at hlin hmem ⊢
  have hfound : (Call.onMap (after Call.onMap m (calls₁ ++ (before ++ [p]))) (.get key)).2 =
      some (.found v) := by
    rw [snd_onMap_get, ← List.append_assoc, after_append, after_singleton, hop, fst_onMap_put,
      Function.update_self]
    rfl
  obtain ⟨hlin', hafter⟩ := hlin.delay hopen (fun m' => fst_onMap_get m' key) hfound
  refine ⟨_, hlin', hafter, ⟨fun e hne => ?_, fun e he => ?_⟩, by simp⟩
  · have hne₁ : e ≠ ⟨id, .get key, some .missing⟩ := fun heq => hne (congrArg Entry.id heq)
    have hne₂ : e ≠ ⟨id, .get key, some (.found v)⟩ := fun heq => hne (congrArg Entry.id heq)
    simp [hne₁, hne₂]
  · by_cases heq : e = ⟨id, .get key, some .missing⟩
    · exact ⟨⟨id, .get key, some (.found v)⟩, by simp, by rw [heq]⟩
    · refine ⟨e, ?_, rfl⟩
      simp only [List.mem_append, List.mem_cons, heq, false_or] at he ⊢
      tauto

private theorem replica_of_otherOwner {manager : ClusterManager} {now : Time}
    {routing : RoutingDecision} {target replica : NodeConfig}
    (h : otherOwner manager now routing target = some replica) :
    routing.replica = some replica := (Option.filter_eq_some_iff.mp h).1

/-- A call that the primary has stored submits the write of the replica. -/
private theorem submit (h : Mirrored hashToInt ring m calls history c) {routing : RoutingDecision}
    {target : NodeConfig} (hreplica : routing.replica = (ring.ownerPair hashToInt key).2)
    (hput : PutBefore m calls key v) (manager : ClusterManager) (now : Time) :
    Mirrored hashToInt ring m calls history { c with
      replicaWrites := c.replicaWrites ++
        replicaWriteOf manager now routing target key (some v) none } where
  ring_eq := h.ring_eq
  noTtl := h.noTtl
  done := h.done
  primary := h.primary
  replica := h.replica
  pending w hw := by
    rcases List.mem_append.mp hw with hw | hw
    · exact h.pending w hw
    · rw [replicaWriteOf] at hw
      cases hother : otherOwner manager now routing target with
      | none =>
        rw [hother] at hw
        cases hw
      | some replica =>
        rw [hother] at hw
        obtain rfl := List.mem_singleton.mp hw
        exact ⟨hreplica.symm.trans (replica_of_otherOwner hother), v, rfl, rfl, hput⟩

/-- A call goes on after the reply of the node. -/
theorem resume (h : Explains hashToInt ring m calls x) {await : Await V} {clock : Clock}
    {reply : NodeReply V} {p : CallProgress V × DistributedCacheCluster V}
    (hstate : x.gateway.calls id = some (.replied await reply))
    (hresume : x.gateway.cluster.resume clock await reply = some p) :
    ∃ calls', Explains hashToInt ring m calls'
      ⟨(x.gateway.proceed id p).1, x.history ++ (x.gateway.proceed id p).2⟩ := by
  obtain ⟨hopen, hwaits⟩ := h.waits id _ hstate
  have hid := h.lt_arrived hwaits
  have hwait : ∀ {await}, Waits hashToInt ring m calls x.history id (.asking await) →
      ∃ calls', Explains hashToInt ring m calls'
        ⟨(x.gateway.proceed id (.await await, x.gateway.cluster)).1,
          x.history ++ (x.gateway.proceed id (.await await, x.gateway.cluster)).2⟩ := by
    intro await hasks
    refine ⟨calls, ?_⟩
    simp only [Gateway.proceed, List.append_nil]
    exact h.wait hopen (.refl id calls) h.lin h.mirrored hasks
  have hanswer : ∀ {r c}, Mirrored hashToInt ring m calls x.history c →
      (Excused hashToInt ring x.history id r ∨ ∃ e ∈ calls, e.id = id ∧ r.Tells e.answer) →
      ∃ calls', Explains hashToInt ring m calls'
        ⟨(x.gateway.proceed id (.finish (some r), c)).1,
          x.history ++ (x.gateway.proceed id (.finish (some r), c)).2⟩ :=
    fun hmirrored hr => ⟨calls, h.answer hid (.refl id calls) h.lin hmirrored hr⟩
  cases hwaits with
  | @stored routing target key v result hreplica hok hmem =>
    simp only [DistributedCacheCluster.resume, hok, if_true] at hresume
    obtain rfl := Option.some.inj hresume
    exact hanswer (submit (h.mirrored.manager (Or.inr ⟨clock 0, target.nodeId, rfl⟩)) hreplica
      (Or.inr ⟨_, hmem, rfl⟩) _ (clock 1)) (Or.inr ⟨_, hmem, rfl, rfl, rfl⟩)
  | @read routing target key value hreplica hmem =>
    cases value with
    | some v =>
      obtain rfl := Option.some.inj hresume
      exact hanswer (h.mirrored.manager (Or.inr ⟨clock 0, target.nodeId, rfl⟩))
        (Or.inr ⟨_, hmem, rfl, rfl, rfl, rfl⟩)
    | none =>
      simp only [DistributedCacheCluster.resume, Option.isSome_none, Bool.false_eq_true,
        if_false] at hresume
      cases hother : otherOwner x.gateway.cluster.manager (clock 1) routing target with
      | none =>
        rw [hother] at hresume
        obtain rfl := Option.some.inj hresume
        exact hanswer h.mirrored (Or.inr ⟨_, hmem, rfl, rfl, rfl⟩)
      | some replica =>
        rw [hother] at hresume
        obtain rfl := Option.some.inj hresume
        exact hwait (.getReplica (hreplica.symm.trans (replica_of_otherOwner hother)) hmem)
  | @readReplica replica key value hreplica hmem hput =>
    obtain rfl := Option.some.inj hresume
    cases value with
    | none => exact hanswer h.mirrored (Or.inr ⟨_, hmem, rfl, rfl, rfl⟩)
    | some v =>
      by_cases hdeleted : ∃ other, .invoke other (.delete key) ∈ x.history
      · obtain ⟨other, hother⟩ := hdeleted
        exact hanswer h.mirrored (Or.inl (Or.inr ⟨key, other, replica, h.lin.invoked _ hmem, hother,
          hreplica, rfl⟩))
      · have hdeleted' := not_exists.mp hdeleted
        obtain ⟨calls', hlin, hafter, hsame, hfound⟩ :=
          exists_delayed h.lin hopen hmem hdeleted' (hput hdeleted' v rfl)
        exact ⟨calls', h.answer hid hsame hlin
          (h.mirrored.mono hafter hsame.ops (List.Subset.refl _))
          (Or.inr ⟨_, hfound, rfl, rfl, rfl, rfl⟩)⟩
  | @erased routing target key result hreplica hcode hmem =>
    cases hok : result.ok with
    | true =>
      rw [hok, if_pos rfl] at hmem
      simp only [DistributedCacheCluster.resume, hok, if_true] at hresume
      cases hother : otherOwner x.gateway.cluster.manager (clock 0) routing target with
      | none =>
        rw [hother] at hresume
        obtain rfl := Option.some.inj hresume
        exact hanswer h.mirrored (Or.inr ⟨_, hmem, rfl, rfl, rfl⟩)
      | some replica =>
        rw [hother] at hresume
        obtain rfl := Option.some.inj hresume
        exact hwait (.deleteReplica (hreplica.symm.trans (replica_of_otherOwner hother)) hmem)
    | false =>
      simp only [hok, Bool.false_eq_true, if_false] at hmem
      simp only [DistributedCacheCluster.resume, hok, Bool.false_eq_true, if_false] at hresume
      obtain rfl := Option.some.inj hresume
      exact hanswer h.mirrored (Or.inr ⟨_, hmem, rfl, rfl, hcode hok⟩)
  | erasedReplica hmem =>
    obtain rfl := Option.some.inj hresume
    exact hanswer h.mirrored (Or.inr ⟨_, hmem, rfl, rfl, rfl⟩)
  | @noted nodeId node hmem =>
    obtain rfl := Option.some.inj hresume
    exact hanswer (h.mirrored.manager (Or.inr ⟨clock 0, nodeId, rfl⟩))
      (Or.inr ⟨_, hmem, rfl, trivial⟩)

/-- A call about a key is routed to the primary, or refused. -/
private theorem routed (h : Explains hashToInt ring m calls x) (hid : id < x.gateway.arrived)
    (hopen : ¬Responded x.history id) {clock : Clock}
    (hprimary : ∀ target,
      (x.gateway.cluster.manager.routeForKey hashToInt clock key).servedBy = some target →
        (ring.ownerPair hashToInt key).1 = some target)
    {await : RoutingDecision → NodeConfig → Await V}
    (hawait : ∀ routing target, (ring.ownerPair hashToInt key).1 = some target →
      routing.replica = (ring.ownerPair hashToInt key).2 →
        Waits hashToInt ring m calls x.history id (.asking (await routing target))) :
    Explains hashToInt ring m calls
      ⟨(x.gateway.proceed id
          (x.gateway.cluster.routed hashToInt clock key await, x.gateway.cluster)).1,
        x.history ++ (x.gateway.proceed id
          (x.gateway.cluster.routed hashToInt clock key await, x.gateway.cluster)).2⟩ := by
  rw [DistributedCacheCluster.routed]
  cases hserved : (x.gateway.cluster.manager.routeForKey hashToInt clock key).servedBy with
  | none =>
    exact h.answer hid (.refl id calls) h.lin h.mirrored (Or.inl (Or.inl ⟨rfl, rfl⟩))
  | some target =>
    simp only [Gateway.proceed, List.append_nil]
    refine h.wait hopen (.refl id calls) h.lin h.mirrored (hawait _ target (hprimary target hserved) ?_)
    rw [ClusterManager.replica_routeForKey, h.mirrored.ring_eq]

/-- A call arrives and runs up to where it first waits for a node. -/
theorem arrive (h : Explains hashToInt ring m calls x) {clock : Clock} {call : Call V}
    (hplain : call.Plain) (hprimary : ∀ op, call.clientOp? = some op → ∀ target,
      (x.gateway.cluster.manager.routeForKey hashToInt clock op.key).servedBy = some target →
        (x.gateway.cluster.manager.ring.ownerPair hashToInt op.key).1 = some target) :
    ∃ calls', Explains hashToInt ring m calls'
      ⟨({ x.gateway with arrived := x.gateway.arrived + 1 }.proceed x.gateway.arrived
          (x.gateway.cluster.begin hashToInt clock call)).1,
        x.history ++ [.invoke x.gateway.arrived call] ++
          ({ x.gateway with arrived := x.gateway.arrived + 1 }.proceed x.gateway.arrived
            (x.gateway.cluster.begin hashToInt clock call)).2⟩ := by
  have hinvoke := h.invoke call
  have hopen : ¬Responded (x.history ++ [.invoke x.gateway.arrived call]) x.gateway.arrived := by
    rintro ⟨r, hmem⟩
    rcases List.mem_append.mp hmem with hmem | hmem
    · exact absurd (h.arrived _ (Or.inr ⟨r, hmem⟩)) (lt_irrefl _)
    · cases List.mem_singleton.mp hmem
  have hinvoked : .invoke x.gateway.arrived call ∈ x.history ++ [.invoke x.gateway.arrived call] :=
    List.mem_append_right _ (List.mem_singleton_self _)
  have hnew : ∀ e ∈ calls, e.id ≠ x.gateway.arrived := fun e he =>
    (h.arrived e.id (Or.inl ⟨e.op, h.lin.invoked e he⟩)).ne
  rw [h.mirrored.ring_eq] at hprimary
  cases call with
  | put key value ttlSeconds =>
    obtain ⟨hvalue, rfl⟩ := hplain
    obtain ⟨v, rfl⟩ := Option.isSome_iff_exists.mp hvalue
    exact ⟨calls, hinvoke.routed (Nat.lt_succ_self _) hopen (hprimary _ rfl)
      fun routing target htarget hreplica => .put htarget hreplica hinvoked hnew⟩
  | get key =>
    exact ⟨calls, hinvoke.routed (Nat.lt_succ_self _) hopen (hprimary _ rfl)
      fun routing target htarget hreplica => .get htarget hreplica hinvoked hnew⟩
  | delete key =>
    exact ⟨calls, hinvoke.routed (Nat.lt_succ_self _) hopen (hprimary _ rfl)
      fun routing target htarget hreplica => .delete htarget hreplica hinvoked hnew⟩
  | heartbeat nodeId =>
    let e : MapCall V := ⟨x.gateway.arrived, .heartbeat nodeId, none⟩
    have hlin := hinvoke.lin.concat (e := e) hinvoked hopen hnew rfl
    have hmirrored := hinvoke.mirrored.mono
      (after_append_heartbeat m calls x.gateway.arrived nodeId none) (SameBut.concat e calls).ops
      (List.Subset.refl _)
    have hmem : e ∈ calls ++ [e] := List.mem_append_right _ (List.mem_singleton_self e)
    refine ⟨calls ++ [e], ?_⟩
    rw [begin]
    cases x.gateway.cluster.manager.getNode nodeId with
    | none =>
      exact hinvoke.answer (Nat.lt_succ_self _) (.concat e calls) hlin hmirrored
        (Or.inr ⟨e, hmem, rfl, trivial⟩)
    | some node =>
      simp only [Gateway.proceed, List.append_nil]
      exact hinvoke.wait hopen (.concat e calls) hlin hmirrored (.heartbeat hmem)
  | addNode node runtime => exact hplain.elim
  | removeNode nodeId => exact hplain.elim

/-- **The calls of a run stay linearizable**: after every undisturbed event some calls one after
another explain the history. -/
theorem step (h : Explains hashToInt ring m calls x) {e : GatewayEvent V} {x' : Trace V}
    (hundisturbed : x.Undisturbed hashToInt e) (hstep : Trace.Step hashToInt x e x') :
    ∃ calls', Explains hashToInt ring m calls' x' := by
  obtain ⟨g', history'⟩ := x'
  obtain ⟨answers, hstep, rfl⟩ := hstep
  cases e with
  | arrive clock call =>
    obtain ⟨rfl, rfl⟩ := Prod.mk.inj (Option.some.inj hstep)
    rw [List.append_cons]
    exact h.arrive (hundisturbed.plain (clock, call) rfl) (hundisturbed.primary (clock, call) rfl)
  | perform id clock =>
    rw [Gateway.step] at hstep
    split at hstep
    · rename_i await hstate
      obtain ⟨⟨reply, transport⟩, hperform, heq⟩ := Option.map_eq_some_iff.mp hstep
      obtain ⟨rfl, rfl⟩ := Prod.mk.inj heq
      rw [List.append_nil]
      exact h.perform hstate hundisturbed.room hperform
    · cases hstep
  | resume id clock =>
    rw [Gateway.step] at hstep
    split at hstep
    · rename_i await reply hstate
      obtain ⟨p, hresume, heq⟩ := Option.map_eq_some_iff.mp hstep
      obtain ⟨rfl, rfl⟩ := Prod.mk.inj heq.symm
      exact h.resume hstate hresume
    · cases hstep
  | raise id =>
    obtain ⟨state, -, heq⟩ := Option.map_eq_some_iff.mp hstep
    obtain ⟨rfl, rfl⟩ := Prod.mk.inj heq
    rw [List.append_nil]
    exact ⟨calls, h.raise id⟩
  | background s =>
    obtain ⟨c, hs, heq⟩ := Option.map_eq_some_iff.mp hstep
    obtain ⟨rfl, rfl⟩ := Prod.mk.inj heq
    rw [List.append_nil]
    exact ⟨calls, { h with mirrored := h.mirrored.background hundisturbed.room hs }⟩

end Explains

/-- **Overlapping calls are linearizable**: from a gateway without calls and background work whose
owners agree with a map, along every run without topology changes and eviction in which no replica
serves a key in place of its primary, the calls are answered as if they had been made on the map
one after another, in an order that keeps two calls apart of which one was answered before the
other arrived. Left out of account are refused calls, and answers of the replica to gets of keys
that are deleted at some time. -/
theorem overlapping_calls_linearizable {c : DistributedCacheCluster V} (hnoTtl : c.transport.NoTtl)
    (hquiescent : c.Quiescent) (howners : ∀ key, ∀ node ∈ c.manager.ring.owners hashToInt key,
      c.transport.lookup node.nodeId key = (m key).map .plain)
    {es : List (GatewayEvent V)} {x : Trace V}
    (hrun : Run (fun x e x' => x.Undisturbed hashToInt e ∧ Trace.Step hashToInt x e x')
      ⟨.init c, []⟩ es x) :
    ∃ calls, Linearization Call.onMap Response.Tells m x.history
      (Excused hashToInt c.manager.ring x.history) calls := by
  have hstart : Explains hashToInt c.manager.ring m [] ⟨.init c, []⟩ := by
    refine ⟨⟨trivial, .nil, fun e he => ?_, .nil, fun id r hr => ?_⟩,
      ⟨rfl, hnoTtl, hquiescent.rebalances, fun key target hprimary => ?_,
        fun key replica hreplica _ entry hentry => ?_, fun w hw => ?_⟩,
      fun id hid => ?_, fun id state hstate => ?_⟩
    · cases he
    · cases hr
    · exact howners key target (by simp [ConsistentHashRing.owners, hprimary])
    · have hlookup := howners key replica (by simp [ConsistentHashRing.owners, hreplica])
      obtain ⟨v, hv, rfl⟩ := Option.map_eq_some_iff.mp (hlookup.symm.trans hentry)
      exact ⟨v, rfl, Or.inl hv⟩
    · rw [show (Gateway.init c).cluster.replicaWrites = [] from hquiescent.replicaWrites] at hw
      cases hw
    · rcases hid with ⟨call, hmem⟩ | ⟨r, hmem⟩ <;> cases hmem
    · cases hstate
  obtain ⟨calls, hexplains⟩ := hrun.invariant
    (I := fun x => ∃ calls, Explains hashToInt c.manager.ring m calls x)
    (fun _ _ _ h hstep => h.elim fun _ h => h.step hstep.1 hstep.2) ⟨[], hstart⟩
  exact ⟨calls, hexplains.lin⟩

theorem overlapping_calls_linearizable_sample : ∃ (x : Trace ℕ) (calls : List (MapCall ℕ)),
    x.answers = [(0, acknowledged (sampleNode "m")), (1, found (some 7) (sampleNode "n"))] ∧
      Linearization Call.onMap Response.Tells (fun _ => none) x.history
        (Excused sampleHash (sampleCluster ["m", "n"]).manager.ring x.history) calls := by
  obtain ⟨x, hrun, hanswers⟩ := Trace.exists_run_where sampleHash
    (fun x e => x.Undisturbed sampleHash e) ⟨.init (sampleCluster ["m", "n"]), []⟩ sampleOverlap
    (fun x => x.answers =
      [(0, acknowledged (sampleNode "m")), (1, found (some 7) (sampleNode "n"))])
    (by decide +kernel)
  have hempty : ∀ nodeId key, (sampleCluster ["m", "n"]).transport.lookup nodeId key = none :=
    sampleCluster_lookup ["m", "n"]
  obtain ⟨calls, hlin⟩ := overlapping_calls_linearizable (m := fun _ => none)
    (fun nodeId key entry hentry => by rw [hempty] at hentry; cases hentry)
    (sampleCluster_quiescent ["m", "n"]) (fun key node _ => hempty node.nodeId key) hrun
  exact ⟨x, calls, of_decide_eq_true hanswers, hlin⟩

end DistributedCache
