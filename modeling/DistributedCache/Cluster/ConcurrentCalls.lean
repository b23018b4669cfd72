import DistributedCache.Cluster.Background
import DistributedCache.Library.Linearizable
import DistributedCache.Library.Run

/-!
# Client calls that overlap

A client call is a coroutine: it gives way to the others wherever it awaits a node. Between the
request and the moment at which the call goes on, the node carries the request out, and other
calls and the background loop may come in. Topology changes await nothing. A call may raise as
long as it waits, whether its request was carried out or not.

The readings of the clock in a part of a call are numbered from 0 on, with the same gaps as in
the call as a whole.

Source: `distributed_cache/cluster/service.py`, `put`, `get`, `delete` and `heartbeat`.

## Main definitions

* `Await`, `CallProgress` : where a call waits for a node, and what it does there.
* `DistributedCacheCluster.begin`, `NodeTransport.perform`, `DistributedCacheCluster.resume` : the
  parts of a call.
* `Gateway`, `Gateway.step` : the gateway with the calls that are under way.
* `Trace`, `Trace.Step` : the gateway with the history of its calls.

## Main results

* `Gateway.run_serve` : a call that no other one interrupts is the call as a whole.
* `Gateway.run_of_run` : runs of the gateway in which no calls overlap.
-/

namespace DistributedCache

open Library Library.Linearizable

variable {V : Type*}

/-- Where a client call waits for a node, with what it needs afterwards. -/
inductive Await (V : Type*)
  | put (routing : RoutingDecision) (target : NodeConfig) (key : String) (value : Option V)
      (ttlSeconds : Option Time)
  | get (routing : RoutingDecision) (target : NodeConfig) (key : String)
  | getReplica (replica : NodeConfig) (key : String)
  | delete (routing : RoutingDecision) (target : NodeConfig) (key : String)
  | deleteReplica (target replica : NodeConfig) (key : String)
  | heartbeat (nodeId : String) (node : NodeConfig)

/-- The client call that waits. -/
def Await.call : Await V → Call V
  | .put _ _ key value ttlSeconds => .put key value ttlSeconds
  | .get _ _ key | .getReplica _ key => .get key
  | .delete _ _ key | .deleteReplica _ _ key => .delete key
  | .heartbeat nodeId _ => .heartbeat nodeId

/-- What a node answers to a request. -/
inductive NodeReply (V : Type*)
  | written (result : OperationResult)
  | read (found : Bool) (value : Option V)
  | noted

/-- A part of a call ends where the call waits for a node, or with the call; a call that raises
answers `none`. -/
inductive CallProgress (V : Type*)
  | await (await : Await V)
  | finish (response : Option (Response V))

/-- A node carries the request of a waiting call out; the call raises where it cannot. -/
def NodeTransport.perform (t : NodeTransport V) (clock : Clock) :
    Await V → Option (NodeReply V × NodeTransport V)
  | .put _ target key value ttlSeconds =>
    (t.put clock target key value ttlSeconds).map fun p => (.written p.1, p.2)
  | .get _ target key => (t.get clock target key).map fun p => (.read p.1.1 p.1.2, p.2)
  | .getReplica replica key => (t.get clock replica key).map fun p => (.read p.1.1 p.1.2, p.2)
  | .delete _ target key => (t.delete clock target key).map fun p => (.written p.1, p.2)
  | .deleteReplica _ replica key => (t.delete clock replica key).map fun p => (.written p.1, p.2)
  | .heartbeat _ node => (t.heartbeat (clock 0) node).map fun t' => (.noted, t')

namespace DistributedCacheCluster

def notFound : Response V := { ok := false, statusCode := 404, message := some "not found" }

def unknownNode : Response V := { ok := false, statusCode := 404, message := some "unknown node" }

/-- The acknowledgement of a write. -/
def acknowledged (target : NodeConfig) : Response V :=
  { ok := true, statusCode := 200, servedBy := some target.nodeId }

def found (value : Option V) (node : NodeConfig) : Response V :=
  { ok := true, statusCode := 200, value := some value, servedBy := some node.nodeId }

/-- A call goes on after the reply of the node that it waited for. -/
def resume (c : DistributedCacheCluster V) (clock : Clock) :
    Await V → NodeReply V → Option (CallProgress V × DistributedCacheCluster V)
  | .put routing target key value ttlSeconds, .written result =>
    if result.ok then
      let manager := c.manager.recordHeartbeat (clock 0) target.nodeId
      some (.finish (some (acknowledged target)),
        { c with
          manager := manager
          replicaWrites := c.replicaWrites ++
            replicaWriteOf manager (clock 1) routing target key value ttlSeconds })
    else some (.finish (some (refused result)), c)
  | .get routing target key, .read isFound value =>
    if isFound then
      some (.finish (some (found value target)),
        { c with manager := c.manager.recordHeartbeat (clock 0) target.nodeId })
    else
      match otherOwner c.manager (clock 1) routing target with
      | none => some (.finish (some notFound), c)
      | some replica => some (.await (.getReplica replica key), c)
  | .getReplica replica _, .read isFound value =>
    some (.finish (some (if isFound then found value replica else notFound)), c)
  | .delete routing target key, .written result =>
    if result.ok then
      match otherOwner c.manager (clock 0) routing target with
      | none => some (.finish (some (acknowledged target)), c)
      | some replica => some (.await (.deleteReplica target replica key), c)
    else some (.finish (some (refused result)), c)
  | .deleteReplica target _ _, .written _ => some (.finish (some (acknowledged target)), c)
  | .heartbeat nodeId _, .noted =>
    some (.finish (some { ok := true, statusCode := 200 }),
      { c with manager := c.manager.recordHeartbeat (clock 0) nodeId })
  | _, _ => none

section Hash

variable (hashToInt : String → ℕ)

/-- A call about a key is routed, and waits for the node that serves it. -/
def routed (c : DistributedCacheCluster V) (clock : Clock) (key : String)
    (await : RoutingDecision → NodeConfig → Await V) : CallProgress V :=
  let routing := c.manager.routeForKey hashToInt clock key
  match routing.servedBy with
  | none => .finish (some noLiveNodes)
  | some target => .await (await routing target)

/-- A call up to where it first waits for a node. -/
def begin (c : DistributedCacheCluster V) (clock : Clock) :
    Call V → CallProgress V × DistributedCacheCluster V
  | .put key value ttlSeconds =>
    (c.routed hashToInt clock key fun routing target => .put routing target key value ttlSeconds, c)
  | .get key => (c.routed hashToInt clock key fun routing target => .get routing target key, c)
  | .delete key => (c.routed hashToInt clock key fun routing target => .delete routing target key, c)
  | .heartbeat nodeId =>
    match c.manager.getNode nodeId with
    | none => (.finish (some unknownNode), c)
    | some node => (.await (.heartbeat nodeId node), c)
  | .addNode node runtime =>
    let (response, c') := c.addNode hashToInt clock node runtime
    (.finish response, c')
  | .removeNode nodeId =>
    let (response, c') := c.removeNode nodeId
    (.finish response, c')

end Hash

end DistributedCacheCluster

/-- A call that waits: for its request to be carried out, or to go on with the reply. -/
inductive CallState (V : Type*)
  | asking (await : Await V)
  | replied (await : Await V) (reply : NodeReply V)

def CallState.await : CallState V → Await V
  | .asking await | .replied await _ => await

/-- The gateway with its calls, numbered in the order in which they arrived. -/
structure Gateway (V : Type*) where
  cluster : DistributedCacheCluster V
  arrived : ℕ
  /-- The calls that wait. -/
  calls : ℕ → Option (CallState V)

inductive GatewayEvent (V : Type*)
  | arrive (clock : Clock) (call : Call V)
  | perform (id : ℕ) (clock : Clock)
  | resume (id : ℕ) (clock : Clock)
  | raise (id : ℕ)
  | background (step : BackgroundStep)

/-- The calls that arrive and the answers that they get. -/
abbrev CallHistory (V : Type*) : Type _ := List (CallEvent ℕ (Call V) (Response V))

namespace Gateway

/-- The gateway without calls. -/
def init (c : DistributedCacheCluster V) : Gateway V := ⟨c, 0, fun _ => none⟩

/-- A part of the call has run. -/
def proceed (g : Gateway V) (id : ℕ) :
    CallProgress V × DistributedCacheCluster V → Gateway V × CallHistory V
  | (.await await, c) =>
    ({ g with cluster := c, calls := Function.update g.calls id (some (.asking await)) }, [])
  | (.finish response, c) =>
    ({ g with cluster := c, calls := Function.update g.calls id none },
      response.toList.map (.respond id))

/-- One event at the gateway, with what it adds to the history. -/
def step (hashToInt : String → ℕ) (g : Gateway V) :
    GatewayEvent V → Option (Gateway V × CallHistory V)
  | .arrive clock call =>
    let (g', answers) := { g with arrived := g.arrived + 1 }.proceed g.arrived
      (g.cluster.begin hashToInt clock call)
    some (g', .invoke g.arrived call :: answers)
  | .perform id clock =>
    match g.calls id with
    | some (.asking await) =>
      (g.cluster.transport.perform clock await).map fun p =>
        ({ g with
          cluster := { g.cluster with transport := p.2 }
          calls := Function.update g.calls id (some (.replied await p.1)) }, [])
    | _ => none
  | .resume id clock =>
    match g.calls id with
    | some (.replied await reply) => (g.cluster.resume clock await reply).map (g.proceed id)
    | _ => none
  | .raise id => (g.calls id).map fun _ => ({ g with calls := Function.update g.calls id none }, [])
  | .background s =>
    (g.cluster.runBackground hashToInt s).map fun c => ({ g with cluster := c }, [])

end Gateway

/-- A call waits as before, or as the event left it. -/
theorem Gateway.of_update {calls : ℕ → Option (CallState V)} {id other : ℕ}
    {new : Option (CallState V)} {state : CallState V}
    (h : Function.update calls id new other = some state) :
    other = id ∧ new = some state ∨ calls other = some state := by
  rw [Function.update_apply] at h
  split_ifs at h with hid
  · exact Or.inl ⟨hid, h⟩
  · exact Or.inr h

/-- The gateway with the history of its calls so far. -/
structure Trace (V : Type*) where
  gateway : Gateway V
  history : CallHistory V

/-- One event at the gateway. -/
def Trace.Step (hashToInt : String → ℕ) (x : Trace V) (e : GatewayEvent V) (x' : Trace V) : Prop :=
  ∃ h, x.gateway.step hashToInt e = some (x'.gateway, h) ∧ x'.history = x.history ++ h

/-- One event at a gateway that runs whole calls. -/
inductive Trace.Serves (hashToInt : String → ℕ) (x : Trace V) : Event V → Trace V → Prop
  | call (clock : Clock) (call : Call V) : Trace.Serves hashToInt x (.call clock call)
      ⟨⟨(x.gateway.cluster.serve hashToInt clock call).2, x.gateway.arrived + 1,
          Function.update x.gateway.calls x.gateway.arrived none⟩,
        x.history ++ .invoke x.gateway.arrived call ::
          (x.gateway.cluster.serve hashToInt clock call).1.toList.map
            (.respond x.gateway.arrived)⟩
  | background {s : BackgroundStep} {c : DistributedCacheCluster V}
      (h : x.gateway.cluster.runBackground hashToInt s = some c) :
      Trace.Serves hashToInt x (.background s) { x with gateway := { x.gateway with cluster := c } }

/-! ### Calls that nothing interrupts -/

/-- The parts of a call one after another: where the node carries the request out the call goes
on, and where it cannot the call raises. -/
inductive Completes : CallProgress V × DistributedCacheCluster V →
    Option (Response V) × DistributedCacheCluster V → Prop
  | finish (response : Option (Response V)) (c : DistributedCacheCluster V) :
      Completes (.finish response, c) (response, c)
  | raise {await : Await V} {c : DistributedCacheCluster V} (clock : Clock)
      (hperform : c.transport.perform clock await = none) : Completes (.await await, c) (none, c)
  | resume {await : Await V} {c : DistributedCacheCluster V} (clock clock' : Clock)
      {reply : NodeReply V} {transport : NodeTransport V}
      {p : CallProgress V × DistributedCacheCluster V}
      {q : Option (Response V) × DistributedCacheCluster V}
      (hperform : c.transport.perform clock await = some (reply, transport))
      (hresume : { c with transport := transport }.resume clock' await reply = some p)
      (hrest : Completes p q) : Completes (.await await, c) q

namespace DistributedCacheCluster

variable {hashToInt : String → ℕ}

private theorem completes_put (c : DistributedCacheCluster V) (clock : Clock) (key : String)
    (value : Option V) (ttlSeconds : Option Time) :
    Completes (c.begin hashToInt clock (.put key value ttlSeconds))
      (c.put hashToInt clock key value ttlSeconds) := by
  simp only [begin, routed, put]
  generalize c.manager.routeForKey hashToInt clock key = routing
  cases routing.servedBy with
  | none => exact .finish _ c
  | some target =>
    dsimp only
    cases hput : c.transport.put (clock.after 3) target key value ttlSeconds with
    | none =>
      refine .raise (clock.after 3) ?_
      rw [NodeTransport.perform, hput]
      rfl
    | some p =>
      obtain ⟨result, transport⟩ := p
      have hperform : c.transport.perform (clock.after 3)
          (.put routing target key value ttlSeconds) = some (.written result, transport) := by
        rw [NodeTransport.perform, hput]
        rfl
      dsimp only
      split_ifs with hok
      all_goals
        refine .resume (clock.after 3) (clock.after 5) hperform ?_ (.finish _ _)
        simp only [resume, hok]
        rfl

private theorem completes_get (c : DistributedCacheCluster V) (clock : Clock) (key : String) :
    Completes (c.begin hashToInt clock (.get key)) (c.get hashToInt clock key) := by
  simp only [begin, routed, get]
  generalize c.manager.routeForKey hashToInt clock key = routing
  cases routing.servedBy with
  | none => exact .finish _ c
  | some target =>
    dsimp only
    cases hget : c.transport.get (clock.after 3) target key with
    | none =>
      refine .raise (clock.after 3) ?_
      rw [NodeTransport.perform, hget]
      rfl
    | some p =>
      obtain ⟨⟨isFound, value⟩, transport⟩ := p
      have hperform : c.transport.perform (clock.after 3) (.get routing target key) =
          some (.read isFound value, transport) := by
        rw [NodeTransport.perform, hget]
        rfl
      cases isFound with
      | true => exact .resume (clock.after 3) (clock.after 5) hperform rfl (.finish _ _)
      | false =>
        cases hother : otherOwner c.manager (clock 6) routing target with
        | none =>
          refine .resume (clock.after 3) (clock.after 5) hperform ?_ (.finish _ _)
          have hother' : otherOwner c.manager (clock.after 5 1) routing target = none := hother
          simp only [resume, hother']
          rfl
        | some replica =>
          refine .resume (p := (.await (.getReplica replica key), { c with transport := transport }))
            (clock.after 3) (clock.after 5) hperform ?_ ?_
          · have hother' : otherOwner c.manager (clock.after 5 1) routing target = some replica :=
              hother
            simp only [resume, hother']
            rfl
          dsimp only
          cases hreplica : transport.get (clock.after 7) replica key with
          | none =>
            refine .raise (clock.after 7) ?_
            rw [NodeTransport.perform, hreplica]
            rfl
          | some p =>
            obtain ⟨⟨isFound, value⟩, transport'⟩ := p
            have hperform' : transport.perform (clock.after 7) (.getReplica replica key) =
                some (.read isFound value, transport') := by
              rw [NodeTransport.perform, hreplica]
              rfl
            cases isFound <;> exact .resume (clock.after 7) clock hperform' rfl (.finish _ _)

private theorem completes_delete (c : DistributedCacheCluster V) (clock : Clock) (key : String) :
    Completes (c.begin hashToInt clock (.delete key)) (c.delete hashToInt clock key) := by
  simp only [begin, routed, delete]
  generalize c.manager.routeForKey hashToInt clock key = routing
  cases routing.servedBy with
  | none => exact .finish _ c
  | some target =>
    dsimp only
    cases hdelete : c.transport.delete (clock.after 3) target key with
    | none =>
      refine .raise (clock.after 3) ?_
      rw [NodeTransport.perform, hdelete]
      rfl
    | some p =>
      obtain ⟨result, transport⟩ := p
      have hperform : c.transport.perform (clock.after 3) (.delete routing target key) =
          some (.written result, transport) := by
        rw [NodeTransport.perform, hdelete]
        rfl
      dsimp only
      split_ifs with hok
      · cases hother : otherOwner c.manager (clock 5) routing target with
        | none =>
          refine .resume (clock.after 3) (clock.after 5) hperform ?_ (.finish _ _)
          have hother' : otherOwner c.manager (clock.after 5 0) routing target = none := hother
          simp only [resume, hok, if_true, hother']
          rfl
        | some replica =>
          have hother' : otherOwner c.manager (clock.after 5 0) routing target = some replica :=
            hother
          refine .resume
            (p := (.await (.deleteReplica target replica key), { c with transport := transport }))
            (clock.after 3) (clock.after 5) hperform ?_ ?_
          · simp only [resume, hok, if_true, hother']
          dsimp only
          cases hreplica : transport.delete (clock.after 6) replica key with
          | none =>
            refine .raise (clock.after 6) ?_
            rw [NodeTransport.perform, hreplica]
            rfl
          | some p =>
            obtain ⟨result', transport'⟩ := p
            have hperform' : transport.perform (clock.after 6) (.deleteReplica target replica key) =
                some (.written result', transport') := by
              rw [NodeTransport.perform, hreplica]
              rfl
            exact .resume (clock.after 6) clock hperform' rfl (.finish _ _)
      · refine .resume (clock.after 3) (clock.after 5) hperform ?_ (.finish _ _)
        simp only [resume, hok]
        rfl

private theorem completes_heartbeat (c : DistributedCacheCluster V) (clock : Clock)
    (nodeId : String) :
    Completes (c.begin hashToInt clock (.heartbeat nodeId)) (c.heartbeat clock nodeId) := by
  simp only [begin, heartbeat]
  cases c.manager.getNode nodeId with
  | none => exact .finish _ c
  | some node =>
    dsimp only
    cases hbeat : c.transport.heartbeat (clock 0) node with
    | none =>
      refine .raise clock ?_
      rw [NodeTransport.perform, hbeat]
      rfl
    | some transport =>
      have hperform : c.transport.perform clock (.heartbeat nodeId node) =
          some (.noted, transport) := by
        rw [NodeTransport.perform, hbeat]
        rfl
      exact .resume clock (clock.after 1) hperform rfl (.finish _ _)

/-- The parts of a call, one after another, are the call. -/
theorem completes_serve (c : DistributedCacheCluster V) (clock : Clock) (call : Call V) :
    Completes (c.begin hashToInt clock call) (c.serve hashToInt clock call) := by
  cases call with
  | put key value ttlSeconds => exact c.completes_put clock key value ttlSeconds
  | get key => exact c.completes_get clock key
  | delete key => exact c.completes_delete clock key
  | heartbeat nodeId => exact c.completes_heartbeat clock nodeId
  | addNode node runtime => exact .finish _ _
  | removeNode nodeId => exact .finish _ _

end DistributedCacheCluster

namespace Gateway

variable {hashToInt : String → ℕ}

private theorem proceed_update (g : Gateway V) (id : ℕ) (c : DistributedCacheCluster V)
    (state : Option (CallState V)) (p : CallProgress V × DistributedCacheCluster V) :
    { g with cluster := c, calls := Function.update g.calls id state }.proceed id p =
      g.proceed id p := by
  obtain ⟨await | response, c'⟩ := p <;> simp only [proceed, Function.update_idem]

/-- The gateway goes through the parts of a call. -/
theorem run_of_completes {p : CallProgress V × DistributedCacheCluster V}
    {q : Option (Response V) × DistributedCacheCluster V} (h : Completes p q) (g : Gateway V)
    (id : ℕ) (history : CallHistory V) :
    ∃ es, Run (Trace.Step hashToInt) ⟨(g.proceed id p).1, history ++ (g.proceed id p).2⟩ es
      ⟨{ g with cluster := q.2, calls := Function.update g.calls id none },
        history ++ q.1.toList.map (.respond id)⟩ := by
  induction h with
  | finish response c => exact ⟨[], .nil _⟩
  | @raise await c clock hperform =>
    refine ⟨[.raise id], .single ⟨[], ?_, ?_⟩⟩
    · simp [step, proceed]
    · simp [proceed]
  | @resume await c clock clock' reply transport p q hperform hresume hrest ih =>
    obtain ⟨es, hrun⟩ := ih
    let replied : Trace V := ⟨{ g with
      cluster := { c with transport := transport }
      calls := Function.update g.calls id (some (.replied await reply)) }, history⟩
    have hperformed : Trace.Step hashToInt
        ⟨(g.proceed id (.await await, c)).1, history ++ (g.proceed id (.await await, c)).2⟩
        (.perform id clock) replied := by
      refine ⟨[], ?_, ?_⟩
      · simp [step, proceed, hperform, replied]
      · simp [proceed, replied]
    have hresumed : Trace.Step hashToInt replied (.resume id clock')
        ⟨(g.proceed id p).1, history ++ (g.proceed id p).2⟩ := by
      refine ⟨(g.proceed id p).2, ?_, rfl⟩
      simp [step, hresume, proceed_update, replied]
    exact ⟨_, .cons hperformed (.cons hresumed hrun)⟩

/-- **A call that no other one interrupts is the call as a whole**: the gateway takes it from its
arrival to its answer, or to the exception that it raises. -/
theorem run_serve (x : Trace V) (clock : Clock) (call : Call V) :
    ∃ es, Run (Trace.Step hashToInt) x es
      ⟨⟨(x.gateway.cluster.serve hashToInt clock call).2, x.gateway.arrived + 1,
          Function.update x.gateway.calls x.gateway.arrived none⟩,
        x.history ++ .invoke x.gateway.arrived call ::
          (x.gateway.cluster.serve hashToInt clock call).1.toList.map
            (.respond x.gateway.arrived)⟩ := by
  obtain ⟨g, history⟩ := x
  have hserve : Completes (g.cluster.begin hashToInt clock call)
      (g.cluster.serve hashToInt clock call) := g.cluster.completes_serve clock call
  obtain ⟨es, hrun⟩ := run_of_completes hserve { g with arrived := g.arrived + 1 } g.arrived
    (history ++ [.invoke g.arrived call])
  simp only [List.append_assoc, List.singleton_append] at hrun
  exact ⟨.arrive clock call :: es, .cons ⟨_, rfl, rfl⟩ hrun⟩

/-- **The gateway can run its calls one after another**: a run of whole calls and background steps
is a run of the gateway, with the answers of the whole calls. -/
theorem run_of_run {c c' : DistributedCacheCluster V} {es : List (Event V)}
    (h : Run (fun c e c' => c.step hashToInt e = some c') c es c') (x : Trace V)
    (hcluster : x.gateway.cluster = c) (hidle : ∀ id, x.gateway.calls id = none) :
    ∃ x' es', Run (Trace.Serves hashToInt) x es x' ∧ Run (Trace.Step hashToInt) x es' x' ∧
      x'.gateway.cluster = c' ∧ ∀ id, x'.gateway.calls id = none := by
  induction h generalizing x with
  | nil c => exact ⟨x, [], .nil x, .nil x, hcluster, hidle⟩
  | @cons c d c' e es hstep hrun ih =>
    subst hcluster
    obtain ⟨y, es₁, hserves, hstep₁, hy, hcalls⟩ : ∃ y es₁, Trace.Serves hashToInt x e y ∧
        Run (Trace.Step hashToInt) x es₁ y ∧ y.gateway.cluster = d ∧
        ∀ id, y.gateway.calls id = none := by
      cases e with
      | call clock call =>
        obtain rfl := Option.some.inj hstep
        obtain ⟨es₁, hrun₁⟩ := run_serve x clock call
        refine ⟨_, es₁, .call clock call, hrun₁, rfl, fun id => ?_⟩
        exact (Function.update_apply ..).trans (by rw [hidle, ite_self])
      | background s =>
        refine ⟨_, [.background s], .background hstep, .single ⟨[], ?_, ?_⟩, rfl, hidle⟩
        · exact congrArg (Option.map _) hstep
        · exact (List.append_nil _).symm
    obtain ⟨x', es₂, hserves', hstep₂, hx', hcalls'⟩ := ih y hy hcalls
    exact ⟨x', es₁ ++ es₂, .cons hserves hserves', hstep₁.append hstep₂, hx', hcalls'⟩

/-- A put, its replica write and a get in a small cluster. -/
theorem run_of_run_sample :
    ∃ x' es', Run (Trace.Serves sampleHash) ⟨init (sampleCluster ["m", "n"]), []⟩
        [.call (fun _ => 1) (.put "k" (some 7) none),
          .background (.replicate 0 (fun _ => 1) .carriedOut), .call (fun _ => 1) (.get "k")] x' ∧
      Run (Trace.Step sampleHash) ⟨init (sampleCluster ["m", "n"]), []⟩ es' x' := by
  let c := sampleCluster ["m", "n"]
  let stored := (c.serve sampleHash (fun _ => 1) (.put "k" (some 7) none)).2
  have hreplicate :
      (stored.step sampleHash (.background (.replicate 0 (fun _ => 1) .carriedOut))).isSome := by
    decide +kernel
  obtain ⟨replicated, hreplicated⟩ := Option.isSome_iff_exists.mp hreplicate
  have hput : c.step sampleHash (.call (fun _ => 1) (.put "k" (some 7) none)) = some stored := rfl
  have hget : replicated.step sampleHash (.call (fun _ => 1) (.get "k")) =
      some (replicated.serve sampleHash (fun _ => 1) (.get "k")).2 := rfl
  obtain ⟨x', es', hserves, hsteps, -⟩ := run_of_run
    (.cons hput (.cons hreplicated (.single hget))) ⟨init c, []⟩ rfl fun _ => rfl
  exact ⟨x', es', hserves, hsteps⟩

end Gateway

/-! ### Executed runs -/

namespace Trace

/-- The answers of the calls so far. -/
def answers (x : Trace V) : List (ℕ × Response V) :=
  x.history.filterMap fun
    | .respond id r => some (id, r)
    | .invoke _ _ => none

theorem respond_mem_of_mem_answers {x : Trace V} {id : ℕ} {r : Response V}
    (h : (id, r) ∈ x.answers) : .respond id r ∈ x.history := by
  obtain ⟨e, he, heq⟩ := List.mem_filterMap.mp h
  cases e with
  | invoke other call => cases heq
  | respond other r' =>
    obtain ⟨rfl, rfl⟩ := Prod.mk.inj (Option.some.inj heq)
    exact he

section RunAll

variable (hashToInt : String → ℕ) (P : Trace V → GatewayEvent V → Prop) [∀ x e, Decidable (P x e)]

/-- The events one after another, as long as they meet `P`. -/
def runAllWhere (x : Trace V) : List (GatewayEvent V) → Option (Trace V)
  | [] => some x
  | e :: es =>
    if P x e then
      (x.gateway.step hashToInt e).bind fun p => runAllWhere ⟨p.1, x.history ++ p.2⟩ es
    else none

/-- A run exists whose end passes a check, if the executed events do. -/
theorem exists_run_where (x : Trace V) (es : List (GatewayEvent V)) (p : Trace V → Bool)
    (h : (x.runAllWhere hashToInt P es).any p = true) :
    ∃ x', Run (fun x e x' => P x e ∧ Trace.Step hashToInt x e x') x es x' ∧ p x' = true := by
  induction es generalizing x with
  | nil => exact ⟨x, .nil x, h⟩
  | cons e es ih =>
    rw [runAllWhere] at h
    split_ifs at h with hP
    · cases hstep : x.gateway.step hashToInt e with
      | none =>
        rw [hstep] at h
        cases h
      | some q =>
        rw [hstep, Option.bind_some] at h
        obtain ⟨x', hrun, hp⟩ := ih ⟨q.1, x.history ++ q.2⟩ h
        exact ⟨x', .cons ⟨hP, q.2, hstep, rfl⟩ hrun, hp⟩
    · cases h

end RunAll

end Trace

/-- A put and a get that overlap in a small cluster: the primary misses, the put comes in between,
and the replica has the value already. -/
def sampleOverlap : List (GatewayEvent ℕ) :=
  [.arrive (fun _ => 1) (.put "k" (some 7) none), .arrive (fun _ => 1) (.get "k"),
    .perform 1 (fun _ => 1), .perform 0 (fun _ => 1), .resume 0 (fun _ => 1),
    .background (.replicate 0 (fun _ => 1) .carriedOut), .resume 1 (fun _ => 1),
    .perform 1 (fun _ => 1), .resume 1 (fun _ => 1)]

end DistributedCache
