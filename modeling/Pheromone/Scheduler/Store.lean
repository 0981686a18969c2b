import Pheromone.Scheduler.Run

/-!
# A scheduler and the remote store

The requests of a scheduler to the remote store are issued by the client of an io
thread, which gives each of them at most one final response.  `get_kvs_responses`
takes the responses of a client and passes on what `run` has to know.
-/

namespace Pheromone.Scheduler

open Lib Common

/-! ## Requests and responses -/

inductive RequestType
  | get
  | put
  deriving DecidableEq

inductive AnnaError
  | noError
  | keyDne
  | wrongThread
  | timeout
  | lattice
  | noServers
  deriving DecidableEq

structure StoreRequest where
  type : RequestType
  key : Bytes
  thread : Nat
  deriving DecidableEq

structure KeyResponse where
  type : RequestType
  error : AnnaError := .noError
  /-- The only tuple of the response. -/
  key : Bytes
  tupleError : AnnaError := .noError
  value : Value := []

/-- `ipc::shm::acquire` can make a segment of this name: `shm_open` takes the name of a
file, without a slash and of at most 255 bytes. -/
def CanAcquire (name : Bytes) : Prop :=
  let file := Bytes.lit "__IPC_SHM__" ++ name.cstr
  (47 : UInt8) ∉ file ∧ file.length ≤ 255

instance (name : Bytes) : Decidable (CanAcquire name) :=
  inferInstanceAs (Decidable (_ ∧ _))

/-- The object that a get from the store makes. -/
def kvsObjectName (key : Bytes) : Bytes := kvsKeyPrefix ++ kDelimiter ++ key

/-- One iteration of `get_kvs_responses`: the request that is issued again, and the
message for `run`.  A value is copied to shared memory, through a null pointer where there
is no segment. -/
def getKvsResponse (thread : Nat) (response : KeyResponse) :
    Option (List StoreRequest × List NodeEvent) :=
  if response.error = .timeout then
    match response.type with
    | .get => some ([{ type := .get, key := response.key, thread }], [])
    | .put => some ([], []) -- "TODO re-issue put request"
  else if response.type = .get ∧ response.tupleError ≠ .keyDne then
    if CanAcquire (kvsObjectName response.key) then
      some ([], [.kvsGetResp response.key response.value.length.toUInt32])
    else none
  else if response.type = .put then some ([], [.kvsPutResp response.key])
  else some ([], [])

/-! ## Requests of executors -/

structure StoreGet where
  request : InflightIORequest
  name : Bytes

structure StorePut where
  request : InflightIORequest
  packing : Packing
  infos : SendInfos

def storeGetOf : NodeEvent → Option StoreGet
  | .executor _ (address :: 1 :: store :: reqId :: len :: rest) =>
      if store = 1 then none
      else some { request := { executorId := address - 1, reqId }, name := rest.take len.toNat }
  | _ => none

def storePutOf : NodeEvent → Option StorePut
  | .executor _ (address :: 3 :: reqId :: packingByte :: params) =>
      (SendInfos.parse params).map fun infos =>
        { request := { executorId := address - 1, reqId }
          packing := Packing.ofByte packingByte
          infos }
  | _ => none

/-- A request of an executor to the store that the scheduler has recorded. -/
structure StoreWait where
  type : RequestType
  /-- The entry of `key_remote_get_map` or `key_ksv_put_map`. -/
  name : Bytes
  /-- The key that the store was asked for. -/
  key : Bytes
  request : InflightIORequest
  deriving DecidableEq

def storeWaitOf (e : NodeEvent) : Option StoreWait :=
  match storeGetOf e with
  | some get => ((Bytes.split kDelimiterChar get.name)[1]?).map fun key =>
      { type := .get, name := get.name, key, request := get.request }
  | none => (storePutOf e).map fun put =>
      { type := .put
        name := put.infos.sessionKey
        key := put.infos.sessionKey
        request := put.request }

def SchedState.storeEntries (s : SchedState) (type : RequestType) (name : Bytes) :
    List InflightIORequest :=
  match type with
  | .get => s.keyRemoteGetMap.getD name []
  | .put => s.keyKsvPutMap.getD name []

def StoreWait.Recorded (s : SchedState) (w : StoreWait) : Prop :=
  w.request ∈ s.storeEntries w.type w.name

instance (s : SchedState) (w : StoreWait) : Decidable (w.Recorded s) :=
  inferInstanceAs (Decidable (w.request ∈ s.storeEntries w.type w.name))

/-! ## The system -/

/-- A scheduler with the requests that its clients have issued and not ended, the
responses that io threads have passed on, and the requests of executors that are still
recorded. -/
structure StoreNode where
  node : SchedState
  issued : List StoreRequest := []
  inbox : List NodeEvent := []
  waiting : List StoreWait := []

def storeRequestOf : SchedOut → Option StoreRequest
  | .getKvs key thread => some { type := .get, key, thread }
  | .putKvs key _ thread => some { type := .put, key, thread }
  | _ => none

/-- The store request that a message to `run` is the response to. -/
def responseTo : NodeEvent → Option (RequestType × Bytes)
  | .kvsGetResp key _ => some (.get, key)
  | .kvsPutResp key => some (.put, key)
  | _ => none

def SchedState.sentSince (s s' : SchedState) : List SchedOut := s'.sent.drop s.sent.length

def StoreNode.handle (env : SchedEnv) (n : StoreNode) (e : NodeEvent) : Option StoreNode :=
  (nodeStep env n.node e).map fun s =>
    { n with
      node := s
      issued := n.issued ++ (n.node.sentSince s).filterMap storeRequestOf
      waiting := (n.waiting ++ (storeWaitOf e).toList).filter fun w => decide (w.Recorded s) }

inductive StoreEvent
  /-- Any message that is not a response of the store. -/
  | message (e : NodeEvent)
  /-- The client of an io thread returns the final response to a request.  A client
  may answer several equal requests at once; `left` of them are still open. -/
  | respond (thread left : Nat) (response : KeyResponse)
  /-- The main loop takes a response that was passed on. -/
  | process (i : Nat)

def storeStep (env : SchedEnv) (n : StoreNode) : StoreEvent → Option StoreNode
  | .message e => if (responseTo e).isSome then none else n.handle env e
  | .respond thread left response =>
      let request : StoreRequest := { type := response.type, key := response.key, thread }
      if left < n.issued.count request then
        (getKvsResponse thread response).map fun result =>
          { n with
            issued := n.issued.filter (fun r => decide (r ≠ request)) ++
              List.replicate left request ++ result.1
            inbox := n.inbox ++ result.2 }
      else none
  | .process i =>
      (n.inbox[i]?).bind fun e => StoreNode.handle env { n with inbox := n.inbox.eraseIdx i } e

end Pheromone.Scheduler
