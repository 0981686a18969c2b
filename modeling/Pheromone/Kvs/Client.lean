import Pheromone.Scheduler.Store

/-!
# The client of the remote store

`KvsClient` of `kvs_client.hpp`.  A request waits in `pendingRequestMap` until the routing
tier has told the addresses of its key; then it is sent to one of them and waits for the
response of the server.  A step is `none` when its result is undefined.
-/

namespace Pheromone.Kvs

open Lib Common Scheduler

def kKeyAddressPort : Nat := 6450
def kUserResponsePort : Nat := 6800
def kUserKeyAddressPort : Nat := 6850

/-! ## Messages -/

/-- Where the response to a request is waited for: an entry of `pending_get_response_map_`, by
key, or of `pending_put_response_map_`, by key and request id. -/
inductive Slot
  | get (key : Key)
  | put (key : Key) (requestId : Bytes)
  deriving DecidableEq

def Slot.kind : Slot → RequestType × Key
  | .get key => (.get, key)
  | .put key _ => (.put, key)

def Slot.of (type : RequestType) (key : Key) (requestId : Bytes) : Slot :=
  match type with
  | .get => .get key
  | .put => .put key requestId

structure KeyRequest where
  type : RequestType
  requestId : Bytes
  responseAddress : Address
  key : Key
  timestamp : UInt64 := 0
  value : Value := []
  addressCacheSize : Nat := 0

def KeyRequest.slot (request : KeyRequest) : Slot :=
  .of request.type request.key request.requestId

structure ServerResponse extends KeyResponse where
  responseId : Bytes
  invalidate : Bool := false

def ServerResponse.slot (response : ServerResponse) : Slot :=
  .of response.type response.key response.responseId

structure KeyAddressRequest where
  requestId : Bytes
  responseAddress : Address
  key : Key

structure KeyAddressResponse where
  key : Key
  ips : List Address
  error : AnnaError := .noError

inductive KvsOut
  | query (address : Address) (request : KeyAddressRequest)
  | request (worker : Address) (request : KeyRequest)

/-! ## The state -/

structure KvsEnv where
  /-- The threads of the routing tier. -/
  routingThreads : List HandlerThread
  ip : Address
  tid : Nat
  /-- In milliseconds. -/
  timeout : Nat
  randR : RandR

structure PendingRequest where
  tp : TimePoint
  workerAddr : Address
  request : KeyRequest

/-- The two maps of pending responses, with every request in its own slot. -/
structure PendingMap where
  map : UMap Slot PendingRequest := .empty
  keyed : ∀ e ∈ map.entries, e.2.request.slot = e.1 := by exact fun _ he => nomatch he

namespace PendingMap

def set (m : PendingMap) (pending : PendingRequest) : PendingMap where
  map := m.map.set pending.request.slot pending
  keyed := by
    rintro ⟨slot, pending'⟩ he
    rw [UMap.mem_entries_set] at he
    split at he
    next heq => rw [he, heq]
    · exact m.keyed _ he

/-- A request was sent to `worker`: an entry that is there keeps its time and request. -/
def record (m : PendingMap) (now : TimePoint) (worker : Address) (request : KeyRequest) :
    PendingMap :=
  match m.map.find? request.slot with
  | none => m.set { tp := now, workerAddr := worker, request }
  | some pending => m.set { pending with workerAddr := worker }

def erase (m : PendingMap) (slot : Slot) : PendingMap where
  map := m.map.erase slot
  keyed := fun e he => m.keyed e (List.mem_of_mem_eraseP he)

def filter (m : PendingMap) (p : Slot × PendingRequest → Bool) : PendingMap where
  map := m.map.filter p
  keyed := fun e he => m.keyed e (List.mem_of_mem_filter he)

end PendingMap

structure KvsClient where
  rid : UInt32 := 0
  seed : UInt32
  keyAddressCache : UMap Key (USet Address) := .empty
  pendingRequestMap : UMap Key (TimePoint × List KeyRequest) := .empty
  pendingResponseMap : PendingMap := {}
  sent : List KvsOut := []

namespace KvsClient

/-! ## Issuing requests -/

def getRequestId (env : KvsEnv) (c : KvsClient) : KvsClient × Bytes :=
  let rid := if (c.rid + 1) % 10000 = 0 then 0 else c.rid + 1
  ({ c with rid := rid + 1 },
    env.ip ++ Bytes.lit ":" ++ Bytes.toDecimal env.tid ++ Bytes.lit "_" ++
      Bytes.toDecimal rid.toNat)

def queryRoutingAsync (env : KvsEnv) (key : Key) (c : KvsClient) : Option KvsClient :=
  let (c, requestId) := c.getRequestId env
  let draw := env.randR c.seed
  (env.routingThreads[draw.1 % env.routingThreads.length]?).map fun thread =>
    { c with
      seed := draw.2
      sent := c.sent ++ [.query (tcpAddress thread.ip (thread.tid + kKeyAddressPort))
        { requestId, responseAddress := tcpAddress env.ip (env.tid + kUserKeyAddressPort), key }] }

/-- The addresses of a key, in the order in which the set is iterated. -/
def workers (c : KvsClient) (key : Key) : List Address := (c.keyAddressCache.getD key .empty).elems

/-- The address is empty when none is known; then the routing tier was asked. -/
def getWorkerThread (env : KvsEnv) (key : Key) (c : KvsClient) : Option (KvsClient × Address) :=
  if c.workers key = [] then
    if (c.pendingRequestMap.find? key).isSome then some (c, [])
    else (c.queryRoutingAsync env key).map fun c => (c, [])
  else
    let draw := env.randR c.seed
    ((c.workers key)[draw.1 % (c.workers key).length]?).map fun worker =>
      ({ c with seed := draw.2 }, worker)

/-- A request whose key has no known address waits for one. -/
def defer (now : TimePoint) (request : KeyRequest) (c : KvsClient) : KvsClient :=
  let waiting := c.pendingRequestMap.getD request.key (now, [])
  { c with
    pendingRequestMap := c.pendingRequestMap.set request.key
      (waiting.1, waiting.2 ++ [request]) }

def issue (now : TimePoint) (worker : Address) (request : KeyRequest) (c : KvsClient) : KvsClient :=
  let request := { request with addressCacheSize := (c.workers request.key).length }
  { c with
    sent := c.sent ++ [.request worker request]
    pendingResponseMap := c.pendingResponseMap.record now worker request }

def tryRequest (env : KvsEnv) (now : TimePoint) (request : KeyRequest) (c : KvsClient) :
    Option KvsClient :=
  (c.getWorkerThread env request.key).map fun (c, worker) =>
    if worker = [] then c.defer now request else c.issue now worker request

/-- `prepare_data_request` and `try_request`. -/
def request (env : KvsEnv) (now : TimePoint) (type : RequestType) (key : Key) (timestamp : UInt64)
    (value : Value) (c : KvsClient) : Option KvsClient :=
  let next := c.getRequestId env
  next.1.tryRequest env now
    { type, requestId := next.2, key, timestamp, value
      responseAddress := tcpAddress env.ip (env.tid + kUserResponsePort) }

def putAsync (env : KvsEnv) (now : TimePoint) (key : Key) (timestamp : UInt64) (value : Value)
    (c : KvsClient) : Option KvsClient :=
  c.request env now .put key timestamp value

/-- A get of a key that is waited for is not sent again. -/
def getAsync (env : KvsEnv) (now : TimePoint) (key : Key) (c : KvsClient) : Option KvsClient :=
  if (c.pendingResponseMap.map.find? (.get key)).isSome then some c
  else c.request env now .get key 0 []

/-! ## Receiving -/

/-- One of the requests that have waited for an address.  If there is still none, it is
appended to the vector that the loop iterates over. -/
def retry (env : KvsEnv) (now : TimePoint) (c : KvsClient) (request : KeyRequest) :
    Option KvsClient :=
  (c.getWorkerThread env request.key).bind fun (c, worker) =>
    if worker = [] then none else some (c.issue now worker request)

def handleAddresses (env : KvsEnv) (now : TimePoint) (response : KeyAddressResponse)
    (c : KvsClient) : Option KvsClient :=
  match c.pendingRequestMap.find? response.key with
  | none => some c
  | some (_, requests) =>
      if response.error = .noServers then
        queryRoutingAsync env response.key
          { c with pendingRequestMap := c.pendingRequestMap.set response.key (now, requests) }
      else
        let cache := response.ips.foldl (fun cache ip => cache.set response.key
          ((cache.getD response.key .empty).insert ip)) c.keyAddressCache
        (requests.foldlM (retry env now) { c with keyAddressCache := cache }).map fun c =>
          { c with pendingRequestMap := c.pendingRequestMap.erase response.key }

/-- `check_tuple`, but for its result. -/
def checkTuple (response : ServerResponse) (c : KvsClient) : KvsClient :=
  if response.tupleError = .wrongThread ∨ response.invalidate then
    { c with keyAddressCache := c.keyAddressCache.erase response.key }
  else c

def handleResponse (env : KvsEnv) (now : TimePoint) (response : ServerResponse) (c : KvsClient) :
    Option (KvsClient × List ServerResponse) :=
  match c.pendingResponseMap.map.find? response.slot with
  | none => some (c, [])
  | some pending =>
      let c := c.checkTuple response
      if response.tupleError = .wrongThread then
        (tryRequest env now pending.request { c with
          pendingResponseMap := c.pendingResponseMap.set { pending with tp := now } }).map (·, [])
      else
        some ({ c with pendingResponseMap := c.pendingResponseMap.erase response.slot },
          [response])

/-! ## Timeouts -/

/-- Readings of the clock: when a message is handled, and when the age of an entry is looked
at. -/
structure Readings where
  message : TimePoint
  request : Key → TimePoint
  response : Slot → TimePoint

def timedOut (env : KvsEnv) (now tp : TimePoint) : Bool :=
  (env.timeout : Int) < (now - tp).tdiv 1000000

def generateBadResponse (request : KeyRequest) : ServerResponse where
  type := request.type
  responseId := request.requestId
  error := .timeout
  key := request.key
  value := if request.type = .put then request.value else []

/-- The part of an address that names the node. -/
def signature (address : Address) : Option Bytes := (Bytes.split 58 address)[1]?

/-- The keys that have an address on the node of `worker` are forgotten. -/
def invalidateCacheForWorker (c : KvsClient) (worker : Address) : Option KvsClient :=
  (signature worker).bind fun node =>
    if ∀ e ∈ c.keyAddressCache.entries, ∀ address ∈ e.2.elems, (signature address).isSome then
      some { c with keyAddressCache := c.keyAddressCache.filter fun e =>
        ∀ address ∈ e.2.elems, signature address ≠ some node }
    else none

def oldRequest (env : KvsEnv) (clock : Readings) (e : Key × TimePoint × List KeyRequest) : Bool :=
  timedOut env (clock.request e.1) e.2.1

def oldResponse (env : KvsEnv) (clock : Readings) (e : Slot × PendingRequest) : Bool :=
  timedOut env (clock.response e.1) e.2.tp

/-- The loops at the end of `receive_async`. -/
def collect (env : KvsEnv) (clock : Readings) (c : KvsClient) :
    Option (KvsClient × List ServerResponse) :=
  let unsent := c.pendingRequestMap.entries.filter (oldRequest env clock)
  let unanswered := c.pendingResponseMap.map.entries.filter (oldResponse env clock)
  ((unanswered.map fun e => e.2.workerAddr).foldlM invalidateCacheForWorker { c with
    pendingRequestMap := c.pendingRequestMap.filter fun e => !oldRequest env clock e
    pendingResponseMap := c.pendingResponseMap.filter fun e => !oldResponse env clock e }).map
      (·, (unsent.flatMap (·.2.2) ++ unanswered.map (·.2.request)).map generateBadResponse)

/-- `receive_async`, with the messages that the two sockets have, if any. -/
def receiveAsync (env : KvsEnv) (clock : Readings) (addresses : Option KeyAddressResponse)
    (response : Option ServerResponse) (c : KvsClient) :
    Option (KvsClient × List ServerResponse) :=
  (addresses.elim (some c) fun message => c.handleAddresses env clock.message message).bind fun c =>
    (response.elim (some (c, [])) fun message => c.handleResponse env clock.message message).bind
      fun (c, result) => (c.collect env clock).map fun (c, expired) => (c, result ++ expired)

end KvsClient

end Pheromone.Kvs
