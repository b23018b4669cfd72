import DistributedCache.Cluster.Transport
import DistributedCache.Library.PercentEncoding
import Mathlib.Data.List.TakeWhile
import Mathlib.Data.Multiset.ZeroCons

/-!
# The HTTP transport and the node behind it

The HTTP transport writes the key of a call into the path of a URL as it is. The path ends at
the first `?` or `#`; of the rest the client keeps the triplets and encodes what is unsafe, and
the server of the node decodes the path and takes what stands after the prefix of its route as
the key. The key arrives if it has no `?`, no `#` and no triplet. Then the call does to the
runtime what the in-process transport does, and answers the same but for the message of a write,
which is the text of the response.

The payloads of requests and responses are JSON, which is taken to give back what it is given.

Source: `distributed_cache/cluster/transport.py`, `distributed_cache/node_app.py`.

## Main definitions

* `NodeApp.putCache`, `NodeApp.getCache`, `NodeApp.deleteCache`, `NodeApp.snapshot` : the handlers
  of `create_node_app`, and its routes `NodeApp.cacheRoute`, `NodeApp.snapshotRoute`.
* `HttpNodeTransport.put`, `HttpNodeTransport.get`, `HttpNodeTransport.delete`,
  `HttpNodeTransport.snapshot`.
* `NodeCall`, `NodeAnswer`, `runCalls` : sequences of calls on one node.
* `KeptByUrl` : the keys that arrive.

## Main results

* `HttpNodeTransport.received?_eq_self_iff` : which keys arrive.
* `HttpNodeTransport.agrees_iff` : when both transports mean the same.
-/

namespace DistributedCache

open Library

variable {V : Type*}

/-! ### The node -/

/-- The response to a request: the payload of the handler, or the detail of an error. -/
structure HttpResponse (α : Type*) where
  statusCode : ℕ
  body : Except String α

/-- `response.is_success`. -/
def HttpResponse.isSuccess {α : Type*} (response : HttpResponse α) : Bool :=
  200 ≤ response.statusCode && response.statusCode ≤ 299

namespace NodeApp

/-- The route `/internal/cache/{key}`: one segment that is not empty. -/
def cacheRoute (path : List Char) : Option String :=
  if "/internal/cache/".toList <+: path then
    let key := path.drop "/internal/cache/".toList.length
    if key = [] ∨ '/' ∈ key then none else some (String.ofList key)
  else none

/-- The route `/internal/snapshot`. -/
def snapshotRoute (path : List Char) : Option Unit :=
  if path = "/internal/snapshot".toList then some () else none

/-- `put_cache`; the payload is the id of the node. -/
def putCache (rt : NodeRuntime V) (clock : Clock) (value : Option V) (ttlSeconds : Option Time)
    (key : String) : HttpResponse String × NodeRuntime V :=
  let (result, rt) := rt.putLocal clock key value ttlSeconds
  (if result.ok then ⟨200, .ok rt.config.nodeId⟩ else ⟨result.statusCode, .error result.message⟩,
    rt)

/-- `get_cache`; the payload is the value with the id of the node. -/
def getCache (rt : NodeRuntime V) (clock : Clock) (key : String) :
    HttpResponse (Option V × String) × NodeRuntime V :=
  let ((found, value), rt) := rt.getLocal clock key
  (if found then ⟨200, .ok (value, rt.config.nodeId)⟩ else ⟨404, .error "not found"⟩, rt)

/-- `delete_cache`; the payload is the id of the node. -/
def deleteCache (rt : NodeRuntime V) (clock : Clock) (key : String) :
    HttpResponse String × NodeRuntime V :=
  let (result, rt) := rt.deleteLocal clock key
  (if result.ok then ⟨200, .ok rt.config.nodeId⟩ else ⟨result.statusCode, .error result.message⟩,
    rt)

def snapshot (rt : NodeRuntime V) (now : Time) : HttpResponse (NodeSnapshot V) × NodeRuntime V :=
  let (snapshot, rt) := rt.snapshot now
  (⟨200, .ok snapshot⟩, rt)

end NodeApp

/-! ### The transport -/

/-- The characters that may stand in a path as they are. -/
def isPathSafe (c : Char) : Bool := c.isAlphanum || "-._~!$&'()*+,;=:@/".toList.contains c

/-- The part of a text that the path of a URL would take. -/
def pathPart (l : List Char) : List Char := l.takeWhile fun c => c != '?' && c != '#'

/-- The path of the request for a URL. All that is not safe is encoded; that a client may refuse a
URL with control characters is left aside. -/
def requestPath (url : String) : List Char := percentEncode isPathSafe (pathPart url.toList)

/-- The HTTP transport, with what it finds in its surroundings: how the server reads bytes as
UTF-8, and the JSON text of a string. -/
structure HttpNodeTransport where
  decoder : Utf8Decoder
  jsonString : String → String

/-- `f"/internal/cache/{key}"`. -/
def cacheUrl (key : String) : String := "/internal/cache/" ++ key

namespace HttpNodeTransport

/-- The path that the server meets. -/
def serverPath (t : HttpNodeTransport) (url : String) : List Char :=
  t.decoder.decode (percentDecode (requestPath url))

/-- A request to the node: without a route for its path the handlers are not asked. -/
def request {α β : Type*} (t : HttpNodeTransport) (rt : NodeRuntime V) (url : String)
    (route : List Char → Option β) (handler : β → HttpResponse α × NodeRuntime V) :
    HttpResponse α × NodeRuntime V :=
  match route (t.serverPath url) with
  | some x => handler x
  | none => (⟨404, .error "Not Found"⟩, rt)

/-- `response.text` of a write. -/
def text (t : HttpNodeTransport) (response : HttpResponse String) : String :=
  match response.body with
  | .ok servedBy => "\x7b\"ok\":true,\"served_by\":" ++ t.jsonString servedBy ++ "\x7d"
  | .error detail => "\x7b\"detail\":" ++ t.jsonString detail ++ "\x7d"

/-- The result that a write makes of the response. -/
def operationResult (t : HttpNodeTransport) (response : HttpResponse String) : OperationResult :=
  ⟨response.isSuccess, response.statusCode, t.text response⟩

def put (t : HttpNodeTransport) (rt : NodeRuntime V) (clock : Clock) (key : String)
    (value : Option V) (ttlSeconds : Option Time) : OperationResult × NodeRuntime V :=
  let (response, rt) := t.request rt (cacheUrl key) NodeApp.cacheRoute
    (NodeApp.putCache rt clock value ttlSeconds)
  (t.operationResult response, rt)

/-- `get`; the status 200 comes with a payload only. -/
def get (t : HttpNodeTransport) (rt : NodeRuntime V) (clock : Clock) (key : String) :
    (Bool × Option V) × NodeRuntime V :=
  let (response, rt) := t.request rt (cacheUrl key) NodeApp.cacheRoute (NodeApp.getCache rt clock)
  (match response.statusCode, response.body with
    | 200, .ok payload => (true, payload.1)
    | _, _ => (false, none), rt)

def delete (t : HttpNodeTransport) (rt : NodeRuntime V) (clock : Clock) (key : String) :
    OperationResult × NodeRuntime V :=
  let (response, rt) := t.request rt (cacheUrl key) NodeApp.cacheRoute
    (NodeApp.deleteCache rt clock)
  (t.operationResult response, rt)

/-- `snapshot`; `none` where `raise_for_status` raises. -/
def snapshot (t : HttpNodeTransport) (rt : NodeRuntime V) (now : Time) :
    Option (OrderedDict String (CacheEntry V)) × NodeRuntime V :=
  let (response, rt) := t.request rt "/internal/snapshot" NodeApp.snapshotRoute
    fun _ => NodeApp.snapshot rt now
  (match response.body with
    | .ok payload => some payload.entries
    | .error _ => none, rt)

end HttpNodeTransport

/-! ### Sequences of calls -/

inductive NodeCall (V : Type*)
  | put (key : String) (value : Option V) (ttlSeconds : Option Time)
  | get (key : String)
  | delete (key : String)
  | snapshot

inductive NodeAnswer (V : Type*)
  | operation (result : OperationResult)
  | read (answer : Bool × Option V)
  | entries (snapshot : OrderedDict String (CacheEntry V))
  | raised

namespace NodeCall

def key? : NodeCall V → Option String
  | put key _ _ => some key
  | get key => some key
  | delete key => some key
  | snapshot => none

/-- The call answers with an `OperationResult`. -/
def isWrite : NodeCall V → Bool
  | put _ _ _ => true
  | delete _ => true
  | get _ => false
  | snapshot => false

end NodeCall

/-- The answer without the message of an operation. -/
def NodeAnswer.withoutMessage : NodeAnswer V → NodeAnswer V
  | operation result => operation { result with message := "" }
  | read answer => read answer
  | entries snapshot => entries snapshot
  | raised => raised

/-- A call through `InProcessNodeTransport`. -/
def NodeRuntime.call (rt : NodeRuntime V) (clock : Clock) :
    NodeCall V → NodeAnswer V × NodeRuntime V
  | .put key value ttlSeconds =>
    let (result, rt) := rt.putLocal clock key value ttlSeconds
    (.operation result, rt)
  | .get key =>
    let (answer, rt) := rt.getLocal clock key
    (.read answer, rt)
  | .delete key =>
    let (result, rt) := rt.deleteLocal clock key
    (.operation result, rt)
  | .snapshot =>
    let (snapshot, rt) := rt.snapshot (clock 0)
    (.entries snapshot.entries, rt)

/-- A call through `HttpNodeTransport`. -/
def HttpNodeTransport.call (t : HttpNodeTransport) (rt : NodeRuntime V) (clock : Clock) :
    NodeCall V → NodeAnswer V × NodeRuntime V
  | .put key value ttlSeconds =>
    let (result, rt) := t.put rt clock key value ttlSeconds
    (.operation result, rt)
  | .get key =>
    let (answer, rt) := t.get rt clock key
    (.read answer, rt)
  | .delete key =>
    let (result, rt) := t.delete rt clock key
    (.operation result, rt)
  | .snapshot =>
    let (entries, rt) := t.snapshot rt (clock 0)
    (entries.elim .raised .entries, rt)

/-- A call through the transport of the cluster. -/
def NodeTransport.call (t : NodeTransport V) (node : NodeConfig) (clock : Clock) :
    NodeCall V → Option (NodeAnswer V × NodeTransport V)
  | .put key value ttlSeconds =>
    (t.put clock node key value ttlSeconds).map fun p => (.operation p.1, p.2)
  | .get key => (t.get clock node key).map fun p => (.read p.1, p.2)
  | .delete key => (t.delete clock node key).map fun p => (.operation p.1, p.2)
  | .snapshot => (t.snapshot (clock 0) node).map fun p => (.entries p.1, p.2)

namespace NodeTransport

variable {t : NodeTransport V} {node : NodeConfig} {rt : NodeRuntime V}

/-- In process the transport of the cluster makes the call on the runtime of the node. -/
theorem call_inProcess (hkind : t.kind = .inProcess) (hrt : t.runtime? node.nodeId = some rt)
    (clock : Clock) (c : NodeCall V) :
    t.call node clock c =
      some ((rt.call clock c).1, t.setRuntime node.nodeId (rt.call clock c).2) := by
  cases c <;> simp [call, put, get, delete, snapshot, hrt, refusal, hkind, NodeRuntime.call]

/-- Over either transport the cluster gets the answer of the runtime, the message aside. -/
theorem call_eq (hrt : t.runtime? node.nodeId = some rt) (clock : Clock) (c : NodeCall V) :
    ∃ answer : NodeAnswer V,
      t.call node clock c = some (answer, t.setRuntime node.nodeId (rt.call clock c).2) ∧
        answer.withoutMessage = (rt.call clock c).1.withoutMessage := by
  have hrefusal (result : OperationResult) :
      (NodeAnswer.operation (t.refusal result) : NodeAnswer V).withoutMessage =
        (NodeAnswer.operation result : NodeAnswer V).withoutMessage := by
    rw [refusal]
    split
    · rfl
    · split_ifs <;> rfl
  cases c with
  | put key value ttlSeconds =>
    exact ⟨_, by simp only [call, put, hrt, Option.map_some]; rfl, hrefusal _⟩
  | get key => exact ⟨_, by simp only [call, get, hrt, Option.map_some]; rfl, rfl⟩
  | delete key =>
    exact ⟨_, by simp only [call, delete, hrt, Option.map_some]; rfl, hrefusal _⟩
  | snapshot => exact ⟨_, by simp only [call, snapshot, hrt, Option.map_some]; rfl, rfl⟩

end NodeTransport

/-- The calls one after the other, each with the readings of the clock that it makes. -/
def runCalls (call : NodeRuntime V → Clock → NodeCall V → NodeAnswer V × NodeRuntime V) :
    NodeRuntime V → List (Clock × NodeCall V) → List (NodeAnswer V) × NodeRuntime V
  | rt, [] => ([], rt)
  | rt, (clock, c) :: calls =>
    let (answer, rt) := call rt clock c
    let (answers, rt) := runCalls call rt calls
    (answer :: answers, rt)

/-! ### Keys that arrive -/

/-- The keys that the gateway's route can deliver. -/
def IsPathSegment (key : String) : Prop := key ≠ "" ∧ '/' ∉ key.toList

/-- The key has no `?`, no `#` and no triplet. -/
def KeptByUrl (key : String) : Prop :=
  '?' ∉ key.toList ∧ '#' ∉ key.toList ∧ ¬ HasTriplet key.toList

instance (key : String) : Decidable (IsPathSegment key) :=
  inferInstanceAs (Decidable (key ≠ "" ∧ '/' ∉ key.toList))

instance (key : String) : Decidable (KeptByUrl key) :=
  inferInstanceAs (Decidable ('?' ∉ key.toList ∧ '#' ∉ key.toList ∧ ¬ HasTriplet key.toList))

theorem pathPart_append {p : List Char} (hquery : '?' ∉ p) (hfragment : '#' ∉ p) (l : List Char) :
    pathPart (p ++ l) = p ++ pathPart l := by
  refine List.takeWhile_append_of_pos fun c hc => ?_
  have hne : c ≠ '?' ∧ c ≠ '#' := ⟨fun h => hquery (h ▸ hc), fun h => hfragment (h ▸ hc)⟩
  simpa using hne

theorem pathPart_eq_self {l : List Char} (hquery : '?' ∉ l) (hfragment : '#' ∉ l) :
    pathPart l = l := by
  have h := pathPart_append hquery hfragment []
  simpa [pathPart] using h

/-- A `?` or a `#` is cut off. -/
theorem countP_pathPart_lt {l : List Char} (h : '?' ∈ l ∨ '#' ∈ l) :
    (pathPart l).countP isAsciiChar < l.countP isAsciiChar := by
  obtain ⟨c, hc, hcut, hascii⟩ :
      ∃ c ∈ l, (c != '?' && c != '#') = false ∧ isAsciiChar c = true := by
    rcases h with h | h
    · exact ⟨_, h, rfl, by decide⟩
    · exact ⟨_, h, rfl, by decide⟩
  have hsplit := List.takeWhile_append_dropWhile (p := fun c => c != '?' && c != '#') (l := l)
  have hdropped : c ∈ l.dropWhile fun c => c != '?' && c != '#' := by
    rw [← hsplit, List.mem_append] at hc
    refine hc.resolve_left fun hkept => ?_
    rw [List.mem_takeWhile_imp hkept] at hcut
    cases hcut
  conv_rhs => rw [← hsplit, List.countP_append]
  exact Nat.lt_add_of_pos_right (List.countP_pos_iff.mpr ⟨c, hdropped, hascii⟩)

namespace HttpNodeTransport

variable (t : HttpNodeTransport)

/-- The key that reaches the handlers. -/
def received? (key : String) : Option String := NodeApp.cacheRoute (t.serverPath (cacheUrl key))

theorem toList_cacheUrl (key : String) :
    (cacheUrl key).toList = "/internal/cache/".toList ++ key.toList :=
  String.toList_append

/-- The server meets the prefix of the route, and after it what the URL has kept of the key. -/
theorem serverPath_cacheUrl (key : String) :
    t.serverPath (cacheUrl key) =
      "/internal/cache/".toList ++ t.decoder.decode (percentDecode (pathPart key.toList)) := by
  rw [serverPath, requestPath, percentDecode_percentEncode (by decide), toList_cacheUrl,
    pathPart_append (by decide) (by decide), percentDecode_append (by decide),
    t.decoder.decode_flatMap_append]

theorem serverPath_snapshot :
    t.serverPath "/internal/snapshot" = "/internal/snapshot".toList := by
  rw [serverPath, requestPath, percentDecode_percentEncode (by decide),
    pathPart_eq_self (by decide) (by decide)]
  exact t.decoder.decode_percentDecode_eq_self_iff.mpr (by decide)

theorem cacheRoute_append (l : List Char) :
    NodeApp.cacheRoute ("/internal/cache/".toList ++ l) =
      if l = [] ∨ '/' ∈ l then none else some (String.ofList l) := by
  rw [NodeApp.cacheRoute, if_pos (List.prefix_append _ _), List.drop_left]

/-- A key that is kept arrives; another one arrives, if at all, as another key. -/
theorem received?_eq_self_iff {key : String} (hkey : IsPathSegment key) :
    t.received? key = some key ↔ KeptByUrl key := by
  rw [received?, serverPath_cacheUrl, cacheRoute_append]
  constructor
  · intro h
    have hself : t.decoder.decode (percentDecode (pathPart key.toList)) = key.toList := by
      split_ifs at h
      rw [← String.toList_ofList (l := t.decoder.decode _), Option.some.inj h]
    have hwhole : '?' ∉ key.toList ∧ '#' ∉ key.toList := by
      rw [← not_or]
      intro hcut
      have hle := t.decoder.countP_decode_percentDecode_le (pathPart key.toList)
      rw [hself] at hle
      exact absurd hle (not_le.mpr (countP_pathPart_lt hcut))
    rw [pathPart_eq_self hwhole.1 hwhole.2] at hself
    exact ⟨hwhole.1, hwhole.2, t.decoder.decode_percentDecode_eq_self_iff.mp hself⟩
  · rintro ⟨hquery, hfragment, htriplet⟩
    rw [pathPart_eq_self hquery hfragment, t.decoder.decode_percentDecode_eq_self_iff.mpr htriplet,
      if_neg, String.ofList_toList]
    rintro (hempty | hslash)
    · exact hkey.1 (String.toList_eq_nil_iff.mp hempty)
    · exact hkey.2 hslash

/-! ### What a call does -/

section Calls

variable (rt : NodeRuntime V) (clock : Clock)

theorem request_cacheUrl {α : Type*} {key key' : String} (h : t.received? key = some key')
    (handler : String → HttpResponse α × NodeRuntime V) :
    t.request rt (cacheUrl key) NodeApp.cacheRoute handler = handler key' := by
  rw [received?] at h
  rw [request, h]

theorem request_cacheUrl_of_none {α : Type*} {key : String} (h : t.received? key = none)
    (handler : String → HttpResponse α × NodeRuntime V) :
    t.request rt (cacheUrl key) NodeApp.cacheRoute handler = (⟨404, .error "Not Found"⟩, rt) := by
  rw [received?] at h
  rw [request, h]

/-- A put over HTTP is a put of the key that arrives. -/
theorem put_of_received {key key' : String} (h : t.received? key = some key') (value : Option V)
    (ttlSeconds : Option Time) :
    t.put rt clock key value ttlSeconds =
      (t.operationResult ⟨200, .ok rt.config.nodeId⟩,
        (rt.putLocal clock key' value ttlSeconds).2) := by
  rw [put, request_cacheUrl t rt h]
  rfl

theorem get_of_received {key key' : String} (h : t.received? key = some key') :
    t.get rt clock key = rt.getLocal clock key' := by
  rw [get, request_cacheUrl t rt h]
  rcases hget : rt.store.get (clock 0) key' with ⟨value, store⟩
  cases value <;> simp [NodeApp.getCache, NodeRuntime.getLocal, hget]

theorem delete_of_received {key key' : String} (h : t.received? key = some key') :
    (t.delete rt clock key).1.ok = (rt.deleteLocal clock key').1.ok ∧
      (t.delete rt clock key).1.statusCode = (rt.deleteLocal clock key').1.statusCode ∧
      (t.delete rt clock key).2 = (rt.deleteLocal clock key').2 := by
  rw [delete, request_cacheUrl t rt h]
  rcases hdelete : rt.store.delete key' with ⟨deleted, store⟩
  cases deleted <;>
    simp [NodeApp.deleteCache, NodeRuntime.deleteLocal, hdelete, operationResult,
      HttpResponse.isSuccess]

theorem snapshot_eq (now : Time) :
    t.snapshot rt now = (some (rt.snapshot now).1.entries, (rt.snapshot now).2) := by
  rw [snapshot, request, serverPath_snapshot]
  rfl

/-- A call whose key arrives does what the in-process call does, and answers the same but for the
message. -/
theorem call_of_received {c : NodeCall V} (h : ∀ key ∈ c.key?, t.received? key = some key) :
    (t.call rt clock c).1.withoutMessage = (rt.call clock c).1.withoutMessage ∧
      (t.call rt clock c).2 = (rt.call clock c).2 := by
  cases c with
  | put key value ttlSeconds =>
    simp only [call, put_of_received t rt clock (h key rfl)]
    exact ⟨rfl, rfl⟩
  | get key =>
    simp only [call, get_of_received t rt clock (h key rfl), NodeRuntime.call, and_self]
  | delete key =>
    obtain ⟨hok, hstatus, hrt⟩ := delete_of_received t rt clock (h key rfl)
    simp only [call, NodeRuntime.call, NodeAnswer.withoutMessage, hok, hstatus, hrt, and_self]
  | snapshot =>
    simp only [call, snapshot_eq, NodeRuntime.call, Option.elim_some, and_self]

/-- For the keys that arrive, the transport of the cluster stands for the HTTP transport. -/
theorem nodeTransport_call {transport : NodeTransport V} {node : NodeConfig}
    (hrt : transport.runtime? node.nodeId = some rt) {c : NodeCall V}
    (h : ∀ key ∈ c.key?, t.received? key = some key) :
    ∃ answer : NodeAnswer V,
      transport.call node clock c =
          some (answer, transport.setRuntime node.nodeId (t.call rt clock c).2) ∧
        answer.withoutMessage = (t.call rt clock c).1.withoutMessage := by
  obtain ⟨answer, hcall, hanswer⟩ := NodeTransport.call_eq hrt clock c
  obtain ⟨hsame, hruntime⟩ := t.call_of_received rt clock h
  rw [hruntime, hsame]
  exact ⟨answer, hcall, hanswer⟩

/-- A read whose key arrives answers the same. -/
theorem call_eq_of_read {c : NodeCall V} (h : ∀ key ∈ c.key?, t.received? key = some key)
    (hread : c.isWrite = false) : t.call rt clock c = rt.call clock c := by
  cases c with
  | put key value ttlSeconds => cases hread
  | get key => simp only [call, get_of_received t rt clock (h key rfl), NodeRuntime.call]
  | delete key => cases hread
  | snapshot => simp only [call, snapshot_eq, NodeRuntime.call, Option.elim_some]

/-- The message of a write is a JSON object, never one of the messages of the runtime. -/
theorem text_ne (response : HttpResponse String) {message : String}
    (h : message.toList.head? ≠ some '\x7b') : t.text response ≠ message := by
  rintro rfl
  apply h
  rw [text]
  split <;> simp

theorem isWrite_of_call_eq {c : NodeCall V} {rt rt' : NodeRuntime V} {clock clock' : Clock}
    (h : (t.call rt clock c).1 = (rt'.call clock' c).1) : c.isWrite = false := by
  cases c with
  | put key value ttlSeconds =>
    have hresult := NodeAnswer.operation.inj h
    exact absurd (congrArg OperationResult.message hresult) (t.text_ne _ (by decide))
  | get key => rfl
  | delete key =>
    have hresult : t.text _ = (rt'.deleteLocal clock' key).1.message :=
      congrArg OperationResult.message (NodeAnswer.operation.inj h)
    refine absurd hresult (t.text_ne _ ?_)
    simp only [NodeRuntime.deleteLocal]
    split_ifs <;> decide
  | snapshot => rfl

end Calls

/-! ### Both transports -/

/-- Along calls whose keys arrive, both transports answer the same but for the messages, and
leave the same runtime. -/
theorem runCalls_of_received {calls : List (Clock × NodeCall V)}
    (h : ∀ c ∈ calls, ∀ key ∈ c.2.key?, t.received? key = some key) (rt : NodeRuntime V) :
    (runCalls t.call rt calls).1.map NodeAnswer.withoutMessage =
        (runCalls NodeRuntime.call rt calls).1.map NodeAnswer.withoutMessage ∧
      (runCalls t.call rt calls).2 = (runCalls NodeRuntime.call rt calls).2 := by
  induction calls generalizing rt with
  | nil => exact ⟨rfl, rfl⟩
  | cons c calls ih =>
    obtain ⟨clock, c⟩ := c
    obtain ⟨hanswer, hrt⟩ := t.call_of_received rt clock (h _ List.mem_cons_self)
    obtain ⟨hanswers, hlast⟩ := ih (fun c hc => h c (List.mem_cons_of_mem _ hc)) (rt.call clock c).2
    simp only [runCalls, List.map_cons, hanswer, hrt, hanswers, hlast, and_self]

/-- The messages agree along no sequence with a write. -/
theorem isWrite_of_runCalls_eq {calls : List (Clock × NodeCall V)} {rt rt' : NodeRuntime V}
    (h : (runCalls t.call rt calls).1 = (runCalls NodeRuntime.call rt' calls).1) :
    ∀ c ∈ calls, c.2.isWrite = false := by
  induction calls generalizing rt rt' with
  | nil => simp
  | cons c calls ih =>
    obtain ⟨clock, c⟩ := c
    obtain ⟨hanswer, hanswers⟩ := List.cons.inj h
    exact List.forall_mem_cons.mpr ⟨t.isWrite_of_call_eq hanswer, ih hanswers⟩

theorem runCalls_eq_of_read {calls : List (Clock × NodeCall V)}
    (h : ∀ c ∈ calls, ∀ key ∈ c.2.key?, t.received? key = some key)
    (hread : ∀ c ∈ calls, c.2.isWrite = false) (rt : NodeRuntime V) :
    runCalls t.call rt calls = runCalls NodeRuntime.call rt calls := by
  induction calls generalizing rt with
  | nil => rfl
  | cons c calls ih =>
    obtain ⟨clock, c⟩ := c
    rw [List.forall_mem_cons] at h hread
    simp only [runCalls, t.call_eq_of_read rt clock h.1 hread.1, ih h.2 hread.2]

/-- A put with a lifetime leaves a ticket with its key. -/
theorem perm_expirationHeap_putLocal (rt : NodeRuntime V) (clock : Clock) (key : String) :
    (rt.putLocal clock key none (some 1)).2.store.expirationHeap.Perm
      ((clock 0 + 1, key) :: rt.store.expirationHeap) := by
  have hpositive : ¬ (1 : Time) ≤ 0 := by decide
  simp only [NodeRuntime.putLocal, CacheStore.put, if_neg hpositive]
  exact List.perm_orderedInsert _ _ _

/-- The ticket tells which key arrived. -/
theorem received?_of_store_put_eq {rt : NodeRuntime V} {clock : Clock} {key : String}
    (h : (t.put rt clock key none (some 1)).2.store =
      (rt.putLocal clock key none (some 1)).2.store) : t.received? key = some key := by
  have hlocal := perm_expirationHeap_putLocal rt clock key
  rw [← h] at hlocal
  cases hreceived : t.received? key with
  | none =>
    rw [put, request_cacheUrl_of_none t rt hreceived] at hlocal
    simpa using hlocal.length_eq
  | some key' =>
    rw [put_of_received t rt clock hreceived] at hlocal
    have hheap := (perm_expirationHeap_putLocal rt clock key').symm.trans hlocal
    rw [← Multiset.coe_eq_coe, ← Multiset.cons_coe, ← Multiset.cons_coe,
      Multiset.cons_inj_left] at hheap
    rw [(Prod.mk.inj hheap).2]

/-- **Both transports mean the same.** Take any keys that the gateway's route can deliver. From
any runtime, all sequences of calls with these keys get the same answers, the messages of writes
aside, and leave the same store through both transports if and only if no key has a `?`, a `#` or
a triplet. With the messages, the answers to such a sequence agree if and only if it has no put
and no delete. -/
theorem agrees_iff {keys : Set String} (hkeys : ∀ key ∈ keys, IsPathSegment key)
    (rt : NodeRuntime V) :
    ((∀ calls : List (Clock × NodeCall V), (∀ c ∈ calls, ∀ key ∈ c.2.key?, key ∈ keys) →
        (runCalls t.call rt calls).1.map NodeAnswer.withoutMessage =
            (runCalls NodeRuntime.call rt calls).1.map NodeAnswer.withoutMessage ∧
          (runCalls t.call rt calls).2.store = (runCalls NodeRuntime.call rt calls).2.store) ↔
      ∀ key ∈ keys, KeptByUrl key) ∧
    ((∀ key ∈ keys, KeptByUrl key) →
      ∀ calls : List (Clock × NodeCall V), (∀ c ∈ calls, ∀ key ∈ c.2.key?, key ∈ keys) →
        ((runCalls t.call rt calls).1 = (runCalls NodeRuntime.call rt calls).1 ↔
          ∀ c ∈ calls, c.2.isWrite = false)) := by
  have hreceived (h : ∀ key ∈ keys, KeptByUrl key) {calls : List (Clock × NodeCall V)}
      (hcalls : ∀ c ∈ calls, ∀ key ∈ c.2.key?, key ∈ keys) :
      ∀ c ∈ calls, ∀ key ∈ c.2.key?, t.received? key = some key := by
    intro c hc key hkey
    have hmem := hcalls c hc key hkey
    exact (t.received?_eq_self_iff (hkeys key hmem)).mpr (h key hmem)
  refine ⟨⟨fun h key hkey => ?_, fun h calls hcalls => ?_⟩, fun h calls hcalls => ⟨?_, ?_⟩⟩
  · have hone := h [(fun _ => 0, .put key none (some 1))] (by simpa [NodeCall.key?] using hkey)
    exact (t.received?_eq_self_iff (hkeys key hkey)).mp (t.received?_of_store_put_eq hone.2)
  · obtain ⟨hanswers, hrt⟩ := t.runCalls_of_received (hreceived h hcalls) rt
    exact ⟨hanswers, congrArg NodeRuntime.store hrt⟩
  · exact t.isWrite_of_runCalls_eq
  · intro hread
    rw [t.runCalls_eq_of_read (hreceived h hcalls) hread]

/-! A node with room for a few entries, behind a server as it is found in practice. -/

def sampleTransport : HttpNodeTransport where
  decoder := .replacing
  jsonString s := "\"" ++ s ++ "\""

def sampleRuntime : NodeRuntime ℕ := .createDefault 0 ⟨"node-a", "localhost", 8001⟩

/-- `agrees_iff` for a key with a blank, a letter outside ASCII and a `%` alone. -/
theorem agrees_iff_kept_key :
    (∀ key ∈ ({"50% é"} : Set String), IsPathSegment key) ∧
      ∀ calls : List (Clock × NodeCall ℕ),
        (∀ c ∈ calls, ∀ key ∈ c.2.key?, key ∈ ({"50% é"} : Set String)) →
          (runCalls sampleTransport.call sampleRuntime calls).1.map NodeAnswer.withoutMessage =
              (runCalls NodeRuntime.call sampleRuntime calls).1.map NodeAnswer.withoutMessage ∧
            (runCalls sampleTransport.call sampleRuntime calls).2.store =
              (runCalls NodeRuntime.call sampleRuntime calls).2.store := by
  have hsegment : ∀ key ∈ ({"50% é"} : Set String), IsPathSegment key := by
    rintro key rfl
    decide
  refine ⟨hsegment, (sampleTransport.agrees_iff hsegment sampleRuntime).1.mpr ?_⟩
  rintro key rfl
  decide

/-- A put of `a?b` writes `a`: a get of `a` finds the value over HTTP, and nothing in process. -/
theorem put_reaches_other_key :
    let calls : List (Clock × NodeCall ℕ) :=
      [(fun _ => 0, .put "a?b" (some 5) none), (fun _ => 1, .get "a")]
    (∀ c ∈ calls, ∀ key ∈ c.2.key?, IsPathSegment key) ∧
      (runCalls sampleTransport.call sampleRuntime calls).1.map NodeAnswer.withoutMessage =
        [.operation ⟨true, 200, ""⟩, .read (true, some 5)] ∧
      (runCalls NodeRuntime.call sampleRuntime calls).1.map NodeAnswer.withoutMessage =
        [.operation ⟨true, 200, ""⟩, .read (false, none)] ∧
      (runCalls sampleTransport.call sampleRuntime calls).2.store.entries.keys = ["a"] ∧
      (runCalls NodeRuntime.call sampleRuntime calls).2.store.entries.keys = ["a?b"] := by
  refine ⟨by decide, rfl, rfl, rfl, rfl⟩

end HttpNodeTransport

end DistributedCache
