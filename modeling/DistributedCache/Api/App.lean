import DistributedCache.Cluster.HttpTransport
import DistributedCache.Cluster.Service

/-!
# The HTTP API of the gateway

Clients reach the gateway over HTTP. The framework decodes the path of a request and asks the
handler of its route. A handler calls the cluster and makes a response of the result: a result
that is not ok becomes an error with its message as the detail, and an exception of the cluster an
error of the server. Requests that no handler is asked for are the framework's own business, and
so are payloads that it cannot read.

A key is one segment of a path. A client that quotes its keys reaches the handlers with all keys
that any request reaches them with. Behind the gateway the HTTP transport does not quote them, and
a node stores a key under another name, or not at all, if it has a `?`, a `#` or a triplet.

Source: `distributed_cache/api/app.py`, `distributed_cache/api/schemas.py`,
`distributed_cache/entrypoint.py`.

## Main definitions

* `PutRequest`, `CacheResponse`, `HeartbeatResponse` : the schemas.
* `HttpRequest`, `ApiResponse` : requests and responses.
* `GatewayApp.endpoint?` : the routes.
* `GatewayApp.serve` : the gateway answers a request.
* `buildLocalCluster` : the cluster that the gateway starts with.

## Main results

* `GatewayApp.quoted_key_reaches_node_iff` : which keys reach the handlers, and the nodes.
-/

namespace DistributedCache

open Library

variable {V : Type*}

/-! ### Schemas -/

/-- The payload of a put: `value` may be absent, and an absent `ttl_seconds` is the same as
`null`. -/
structure PutBody (V : Type*) where
  value : Option (Option V)
  ttlSeconds : Option Time
  deriving DecidableEq

structure PutRequest (V : Type*) where
  value : Option V
  ttlSeconds : Option Time
  nonneg : ∀ ttl ∈ ttlSeconds, 0 ≤ ttl

/-- `value` is required, and `ttl_seconds` not negative. -/
def PutBody.validate (body : PutBody V) : Option (PutRequest V) :=
  body.value.bind fun value =>
    if h : ∀ ttl ∈ body.ttlSeconds, 0 ≤ ttl then some ⟨value, body.ttlSeconds, h⟩ else none

structure CacheResponse (V : Type*) where
  ok : Bool
  statusCode : ℕ
  message : Option String
  value : Option V
  servedBy : Option String
  deriving DecidableEq

/-- `CacheResponse(**result)`; what the result lacks is `None`. -/
def CacheResponse.ofResult (r : Response V) : CacheResponse V :=
  ⟨r.ok, r.statusCode, r.message, r.value.join, r.servedBy⟩

structure HeartbeatResponse where
  ok : Bool
  statusCode : ℕ
  message : Option String
  deriving DecidableEq

/-- `HeartbeatResponse(**result)`. -/
def HeartbeatResponse.ofResult (r : Response V) : HeartbeatResponse :=
  ⟨r.ok, r.statusCode, r.message⟩

/-! ### Requests and responses -/

inductive HttpMethod
  | get
  | put
  | post
  | delete
  | other
  deriving DecidableEq

/-- A request with its path as it stands in the URL. The body is that of a put, if the payload
can be read as one. -/
structure HttpRequest (V : Type*) where
  method : HttpMethod
  path : List Char
  body : Option (PutBody V) := none
  deriving DecidableEq

inductive ApiBody (V : Type*)
  | health (nodes : List (String × Bool))
  | cache (response : CacheResponse V)
  | heartbeat (response : HeartbeatResponse)
  | detail (message : String)
  /-- The list of what is wrong with a payload. -/
  | validationErrors
  /-- A page of the framework, or one of its error messages. -/
  | text (content : String)
  deriving DecidableEq

structure ApiResponse (V : Type*) where
  statusCode : ℕ
  body : ApiBody V
  deriving DecidableEq

def internalServerError : ApiResponse V := ⟨500, .text "Internal Server Error"⟩

/-- What a handler makes of a result: `body` of it, or an `HTTPException`. An exception of the
cluster is not caught, nor is the `KeyError` of a result without a message. -/
def respond (result : Option (Response V)) (body : Response V → ApiBody V) : ApiResponse V :=
  match result with
  | none => internalServerError
  | some r =>
    if r.ok then ⟨200, body r⟩
    else
      match r.message with
      | some message => ⟨r.statusCode, .detail message⟩
      | none => internalServerError

/-! ### Routes -/

/-- The application, with what it finds in its surroundings: how the server reads bytes as UTF-8,
and what the framework answers to requests that no handler is asked for, or whose payload it
cannot read. -/
structure GatewayApp (V : Type*) where
  decoder : Utf8Decoder
  framework : HttpRequest V → ApiResponse V

/-- The handlers with the parameters of their routes. -/
inductive Endpoint
  | health
  | putCache (key : String)
  | getCache (key : String)
  | deleteCache (key : String)
  | heartbeat (nodeId : String)
  deriving DecidableEq

/-- The key that the handler is asked about. -/
def Endpoint.key? : Endpoint → Option String
  | .putCache key | .getCache key | .deleteCache key => some key
  | .health | .heartbeat _ => none

namespace GatewayApp

/-- A route that ends in a parameter: one segment that is not empty. -/
def segmentRoute (start : String) (path : List Char) : Option String :=
  if start.toList <+: path then
    let segment := path.drop start.toList.length
    if segment = [] ∨ '/' ∈ segment then none else some (String.ofList segment)
  else none

/-- The route `/cache/{key}`. -/
def cacheRoute (path : List Char) : Option String := segmentRoute "/cache/" path

/-- The route `/internal/heartbeat/{node_id}`. -/
def heartbeatRoute (path : List Char) : Option String := segmentRoute "/internal/heartbeat/" path

/-- The route `/health`; the pattern of the framework lets a line end follow. -/
def healthRoute (path : List Char) : Option Unit :=
  if path = "/health".toList ∨ path = "/health\n".toList then some () else none

/-- The path that the routes see. -/
def serverPath (app : GatewayApp V) (path : List Char) : List Char :=
  app.decoder.decode (percentDecode path)

/-- The handler of a request. -/
def endpoint? (app : GatewayApp V) (request : HttpRequest V) : Option Endpoint :=
  let path := app.serverPath request.path
  match request.method with
  | .get => ((healthRoute path).map fun _ => .health).or ((cacheRoute path).map .getCache)
  | .put => (cacheRoute path).map .putCache
  | .delete => (cacheRoute path).map .deleteCache
  | .post => (heartbeatRoute path).map .heartbeat
  | .other => none

/-! ### Handlers -/

/-- The response to a call of the cluster, with the cluster after it. -/
def respondWith (body : Response V → ApiBody V)
    (result : Option (Response V) × DistributedCacheCluster V) :
    ApiResponse V × DistributedCacheCluster V :=
  (respond result.1 body, result.2)

def health (c : DistributedCacheCluster V) (clock : Clock) : ApiResponse V :=
  ⟨200, .health (c.manager.healthReport clock)⟩

def heartbeat (c : DistributedCacheCluster V) (clock : Clock) (nodeId : String) :
    ApiResponse V × DistributedCacheCluster V :=
  respondWith (fun r => .heartbeat (.ofResult r)) (c.heartbeat clock nodeId)

section Hash

variable (hashToInt : String → ℕ)

def putCache (c : DistributedCacheCluster V) (clock : Clock) (key : String)
    (request : PutRequest V) : ApiResponse V × DistributedCacheCluster V :=
  respondWith (fun r => .cache (.ofResult r))
    (c.put hashToInt clock key request.value request.ttlSeconds)

def getCache (c : DistributedCacheCluster V) (clock : Clock) (key : String) :
    ApiResponse V × DistributedCacheCluster V :=
  respondWith (fun r => .cache (.ofResult r)) (c.get hashToInt clock key)

def deleteCache (c : DistributedCacheCluster V) (clock : Clock) (key : String) :
    ApiResponse V × DistributedCacheCluster V :=
  respondWith (fun r => .cache (.ofResult r)) (c.delete hashToInt clock key)

/-- The gateway answers a request. -/
def serve (app : GatewayApp V) (c : DistributedCacheCluster V) (clock : Clock)
    (request : HttpRequest V) : ApiResponse V × DistributedCacheCluster V :=
  match app.endpoint? request with
  | none => (app.framework request, c)
  | some .health => (health c clock, c)
  | some (.heartbeat nodeId) => heartbeat c clock nodeId
  | some (.getCache key) => getCache hashToInt c clock key
  | some (.deleteCache key) => deleteCache hashToInt c clock key
  | some (.putCache key) =>
    match request.body with
    | none => (app.framework request, c)
    | some body =>
      match body.validate with
      | none => (⟨422, .validationErrors⟩, c)
      | some put => putCache hashToInt c clock key put

end Hash

end GatewayApp

/-! ### The local cluster -/

/-- The members of `build_local_cluster`. -/
def nodeSpecs : List NodeConfig :=
  [⟨"node-a", "127.0.0.1", 8001⟩, ⟨"node-b", "127.0.0.1", 8002⟩, ⟨"node-c", "127.0.0.1", 8003⟩]

/-- The runtimes of `build_local_cluster`; the manager has read the clock three times before. -/
def localRuntimes (clock : Clock) (nodeId : String) : Option (NodeRuntime V) :=
  (nodeSpecs.zipIdx.find? fun p => p.1.nodeId = nodeId).map fun p =>
    .create (clock (3 + p.2)) p.1 256 (by decide)

/-- The manager of `build_local_cluster`, with the default number of virtual nodes. -/
def localManager (hashToInt : String → ℕ) (clock : Clock) : ClusterManager :=
  .init hashToInt clock nodeSpecs 3 (by decide +kernel) 32 (by decide)

def buildLocalCluster (hashToInt : String → ℕ) (clock : Clock) : DistributedCacheCluster V :=
  .init (localManager hashToInt clock) ⟨.inProcess, localRuntimes clock, fun _ => true⟩

/-! ### Keys that reach the handlers -/

namespace GatewayApp

variable (app : GatewayApp V)

theorem segmentRoute_append (start : String) (l : List Char) :
    segmentRoute start (start.toList ++ l) =
      if l = [] ∨ '/' ∈ l then none else some (String.ofList l) := by
  rw [segmentRoute, if_pos (List.prefix_append _ _), List.drop_left]

/-- A parameter of a route is a segment. -/
theorem isPathSegment_of_segmentRoute {start param : String} {path : List Char}
    (h : segmentRoute start path = some param) : IsPathSegment param := by
  simp only [segmentRoute] at h
  split_ifs at h with hstart hsegment
  obtain rfl := Option.some.inj h
  rw [not_or] at hsegment
  refine ⟨fun hempty => hsegment.1 ?_, ?_⟩
  · rw [← String.toList_ofList (l := List.drop _ path), hempty]
    rfl
  · rw [String.toList_ofList]
    exact hsegment.2

/-- The characters that a client need not quote. -/
def isUnreserved (c : Char) : Bool := c.isAlphanum || "-._~".toList.contains c

/-- The path of a request about a key, with the key quoted. -/
def cachePath (key : String) : List Char :=
  "/cache/".toList ++ percentQuote isUnreserved key.toList

theorem serverPath_cachePath (key : String) :
    app.serverPath (cachePath key) = "/cache/".toList ++ key.toList := by
  have hdecode := percentDecode_append (p := "/cache/".toList) (by decide)
    (percentQuote isUnreserved key.toList)
  rw [percentDecode_percentQuote (by decide), ← List.flatMap_append] at hdecode
  rw [serverPath, ← app.decoder.decode_flatMap ("/cache/".toList ++ key.toList), ← hdecode]
  rfl

/-- A quoted key reaches the handlers as it is, if it is a segment. -/
theorem cacheRoute_cachePath_iff {key key' : String} :
    cacheRoute (app.serverPath (cachePath key)) = some key' ↔ key' = key ∧ IsPathSegment key := by
  rw [serverPath_cachePath, cacheRoute, segmentRoute_append]
  split_ifs with hsegment
  · refine iff_of_false (by simp) fun ⟨_, hkey⟩ => ?_
    exact hsegment.elim (fun hempty => hkey.1 (String.toList_eq_nil_iff.mp hempty)) hkey.2
  · rw [not_or, ← ne_eq, ne_eq, String.toList_eq_nil_iff] at hsegment
    rw [String.ofList_toList, Option.some_inj, eq_comm]
    exact (and_iff_left hsegment).symm

/-- The methods of the requests about a key, and their handlers. -/
def keyEndpoints : List (HttpMethod × (String → Endpoint)) :=
  [(.put, .putCache), (.get, .getCache), (.delete, .deleteCache)]

theorem healthRoute_cachePath (key : String) :
    healthRoute (app.serverPath (cachePath key)) = none := by
  rw [serverPath_cachePath, healthRoute, if_neg]
  simp

theorem endpoint?_cachePath {method : HttpMethod} {endpoint : String → Endpoint}
    (h : (method, endpoint) ∈ keyEndpoints) (key : String) (body : Option (PutBody V)) :
    app.endpoint? ⟨method, cachePath key, body⟩ =
      (cacheRoute (app.serverPath (cachePath key))).map endpoint := by
  simp only [keyEndpoints, List.mem_cons, Prod.mk.injEq, List.not_mem_nil, or_false] at h
  rcases h with ⟨rfl, rfl⟩ | ⟨rfl, rfl⟩ | ⟨rfl, rfl⟩
  · rfl
  · simp [endpoint?, healthRoute_cachePath]
  · rfl

/-- A handler that is asked about a key has it from the route. -/
theorem cacheRoute_of_endpoint? {request : HttpRequest V} {key : String}
    (h : (app.endpoint? request).bind Endpoint.key? = some key) :
    cacheRoute (app.serverPath request.path) = some key := by
  obtain ⟨endpoint, hendpoint, hkey⟩ := Option.bind_eq_some_iff.mp h
  have hmapped : ∀ {make : String → Endpoint}, (∀ k, (make k).key? = some k) →
      (cacheRoute (app.serverPath request.path)).map make = some endpoint →
        cacheRoute (app.serverPath request.path) = some key := by
    intro make hmake hroute
    obtain ⟨k, hk, rfl⟩ := Option.map_eq_some_iff.mp hroute
    rw [hk, ← hkey, hmake]
  simp only [endpoint?] at hendpoint
  split at hendpoint
  · rcases Option.or_eq_some_iff.mp hendpoint with hhealth | ⟨-, hroute⟩
    · -- the health check has no key
      obtain ⟨-, -, rfl⟩ := Option.map_eq_some_iff.mp hhealth
      simp [Endpoint.key?] at hkey
    · exact hmapped (fun _ => rfl) hroute
  · exact hmapped (fun _ => rfl) hendpoint
  · exact hmapped (fun _ => rfl) hendpoint
  · obtain ⟨nodeId, -, rfl⟩ := Option.map_eq_some_iff.mp hendpoint
    simp [Endpoint.key?] at hkey
  · simp at hendpoint

/-- The HTTP client of the transport sends the key as a part of the path: none that it takes out
of a path as a dot segment, or refuses for its control characters. -/
def SentInPath (key : String) : Prop :=
  key ∉ [".", ".."] ∧ ∀ c ∈ key.toList, 32 ≤ c.toNat ∧ c.toNat ≠ 127

instance (key : String) : Decidable (SentInPath key) :=
  inferInstanceAs (Decidable (_ ∧ ∀ c ∈ key.toList, 32 ≤ c.toNat ∧ c.toNat ≠ 127))

/-- **Quoted keys reach the handlers, and which of them reach the nodes.** The keys that requests
ask the handlers about are the segments, and quoting gives a path for each of them. The HTTP
transport does not quote: of the keys that its client sends, the node is asked about the same key
if and only if the key also has no `?`, no `#` and no triplet. -/
theorem quoted_key_reaches_node_iff (t : HttpNodeTransport) (key : String) :
    ((∃ request, (app.endpoint? request).bind Endpoint.key? = some key) ↔ IsPathSegment key) ∧
    (∀ method endpoint, (method, endpoint) ∈ keyEndpoints → ∀ body,
      app.endpoint? ⟨method, cachePath key, body⟩ = some (endpoint key) ↔ IsPathSegment key) ∧
    (SentInPath key →
      ((cacheRoute (app.serverPath (cachePath key))).bind t.received? = some key ↔
        IsPathSegment key ∧ KeptByUrl key)) := by
  have hquoted : ∀ method endpoint, (method, endpoint) ∈ keyEndpoints → ∀ body,
      app.endpoint? ⟨method, cachePath key, body⟩ = some (endpoint key) ↔ IsPathSegment key := by
    intro method endpoint hmem body
    have hinjective : Function.Injective endpoint := by
      simp only [keyEndpoints, List.mem_cons, Prod.mk.injEq, List.not_mem_nil, or_false] at hmem
      rcases hmem with ⟨-, rfl⟩ | ⟨-, rfl⟩ | ⟨-, rfl⟩ <;> intro k k' hk <;> injection hk
    rw [app.endpoint?_cachePath hmem, Option.map_eq_some_iff]
    simp [app.cacheRoute_cachePath_iff, hinjective.eq_iff]
  refine ⟨⟨?_, fun hkey => ?_⟩, hquoted, ?_⟩
  · rintro ⟨request, hrequest⟩
    exact isPathSegment_of_segmentRoute (app.cacheRoute_of_endpoint? hrequest)
  · have hget := (hquoted .get .getCache (by simp [keyEndpoints]) none).mpr hkey
    exact ⟨_, Option.bind_eq_some_iff.mpr ⟨_, hget, rfl⟩⟩
  · intro _
    constructor
    · intro hboth
      obtain ⟨key', hroute, hreceived⟩ := Option.bind_eq_some_iff.mp hboth
      obtain ⟨rfl, hkey⟩ := app.cacheRoute_cachePath_iff.mp hroute
      exact ⟨hkey, (t.received?_eq_self_iff hkey).mp hreceived⟩
    · rintro ⟨hkey, hkept⟩
      exact Option.bind_eq_some_iff.mpr ⟨key, app.cacheRoute_cachePath_iff.mpr ⟨rfl, hkey⟩,
        (t.received?_eq_self_iff hkey).mpr hkept⟩

end GatewayApp

end DistributedCache
