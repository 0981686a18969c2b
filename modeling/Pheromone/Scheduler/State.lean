import Pheromone.Common.Trigger
import Pheromone.Lib.Shared

/-!
# The state of a scheduler

The globals of `scheduler.cpp`, the local maps of its `run` and the members of
`CommHelper`.  A step is a function from a state to the next one, `none` when it
has no defined result: an exception that nobody catches, or an access outside a
container.  What a scheduler sends is appended to `sent`, the record of
everything it sent so far.

Reading a map with `operator[]` adds the key.  The maps in which this can be
noticed are touched the same way here; for the others, which are only ever read
with `operator[]`, an absent key and its default are one.
-/

namespace Pheromone.Scheduler

open Lib Common

/-- Microseconds of the system clock. -/
abbrev Stamp := Int

abbrev ExecutorId := UInt8

/-- The settings of a scheduler and the parts of the system below it. -/
structure SchedEnv where
  ip : Address
  ioThreadCount : Nat
  /-- `++io_thread_id_ % io_thread_count_` is evaluated. -/
  ioThreadCount_pos : 0 < ioThreadCount
  /-- In microseconds; no delay queue when it is 0. -/
  schedDelayTime : Nat
  sharedExecutor : Bool
  rejectExtraReq : Bool
  randR : RandR
  /-- The first bytes of a shared memory object, by its name and a size. -/
  readShm : Bytes → Nat → Bytes

inductive ExecutorStatus
  | empty
  | available
  | await
  | busy
  | error
  deriving DecidableEq, Repr

structure SchedCall where
  sessionId : Session
  appName : Name
  funcName : Name
  funcArgs : List Bytes
  argFlag : Int
  deriving DecidableEq, Repr

/-- `DelayFunctionCall` -/
structure DelayFunctionCall where
  call : SchedCall
  triggerTime : Stamp
  deriving DecidableEq

structure InflightFuncArgs where
  funcName : Name
  sessionId : Session
  keyArgs : List Bytes
  inflightArgs : Finset Bytes
  argFlag : Int
  deriving DecidableEq

structure InflightIORequest where
  executorId : ExecutorId
  reqId : UInt8
  deriving DecidableEq

structure AppInfo where
  functions : Finset Name := ∅
  directDeps : Map Name (USet Name) := Map.empty
  buckets : List Bucket := []

/-- A pointer to a trigger, as `Shared` numbers them. -/
abbrev TriggerPointer := Nat

structure RerunTriggerTimeout where
  triggerPtr : TriggerPointer
  timeout : Nat
  deriving DecidableEq

structure RerunCheckQueueItem where
  checkTime : Stamp
  session : Session
  triggerPtr : TriggerPointer
  deriving DecidableEq

/-- What a scheduler sends, and marks of what it does that is not a message. -/
inductive SchedOut
  /-- A numbered call arrived, with the keys it has to wait for. -/
  | arrived (callId : UInt32) (args : InflightFuncArgs)
  /-- The object `key` arrived from another node. -/
  | dataArrived (key : Bytes)
  /-- A call handed to `schedule_func_call`; `callId` for the calls that
  `run` numbers. -/
  | submit (callId : Option UInt32) (call : SchedCall)
  /-- The function call message for an executor. -/
  | toExecutor (executor : ExecutorId) (call : SchedCall) (message : Bytes)
  /-- The call message that forwards `calls` to a coordinator. -/
  | forward (calls : List SchedCall) (address : Address) (message : FunctionCall)
  /-- A generic response to an executor. -/
  | response (executor : ExecutorId) (message : Bytes)
  /-- A data request, for a call or for a get request, handled by the io thread
  `thread`. -/
  | dataReq (forCall : Bool) (key : Bytes) (thread : Nat)
  | getKvs (key : Bytes) (thread : Nat)
  | putKvs (key : Bytes) (value : Value) (thread : Nat)
  | notify (address : Address) (request : KeyNotifyRequest)
  /-- The output of a function of `session`; the message does not name the session. -/
  | clientResponse (session : Session) (address : Address) (response : FunctionCallResponse)
  /-- A trigger returned an action for an object put here. -/
  | fired (trigger : Name) (action : TriggerAction)

structure SchedState where
  ramSeed : UInt32 := 0
  delayCallQueue : List DelayFunctionCall := []
  keyLenMap : Map Bytes Nat := Map.empty
  keyValMap : Map Bytes Value := Map.empty
  sessionClientAddrMap : Map Session Address := Map.empty
  rerunCheckQueue : List RerunCheckQueueItem := []
  funcTriggerTimeoutMap : Map Name (List RerunTriggerTimeout) := Map.empty
  callId : UInt32 := 0
  callIdInflightArgsMap : Map UInt32 InflightFuncArgs := Map.empty
  keyCallIdMap : Map Bytes (USet UInt32) := Map.empty
  keyRemoteGetMap : Map Bytes (List InflightIORequest) := Map.empty
  keyKsvPutMap : Map Bytes (List InflightIORequest) := Map.empty
  appInfoMap : Map Name AppInfo := Map.empty
  funcAppMap : Map Name Name := Map.empty
  bucketAppMap : Map Bucket Name := Map.empty
  functionExecutorMap : Map Name (Finset ExecutorId) := Map.empty
  executorStatusMap : UMap ExecutorId ExecutorStatus := UMap.empty
  bucketTriggersMap : Shared Bucket Trigger := Shared.empty
  keyAddressCache : Map Bytes Address := Map.empty
  appCoordMap : Map Name HandlerThread := Map.empty
  bucketCoordMap : Map Bucket HandlerThread := Map.empty
  rid : UInt32 := 0
  ioThreadId : Nat := 0
  sent : List SchedOut := []

namespace SchedState

def new (ramSeed : UInt32) (executors : Nat) : SchedState where
  ramSeed := ramSeed
  executorStatusMap :=
    (List.range executors).foldl (fun m id => m.set id.toUInt8 .await) UMap.empty

def emit (out : SchedOut) (s : SchedState) : SchedState := { s with sent := s.sent ++ [out] }

def triggersOf (s : SchedState) (bucket : Bucket) : List Trigger :=
  s.bucketTriggersMap.list bucket

/-- `session_client_addr_map[session]`, empty for an unknown session. -/
def clientAddr (s : SchedState) (session : Session) : Address :=
  s.sessionClientAddrMap.getD session []

def touchClientAddr (session : Session) (s : SchedState) : SchedState :=
  { s with sessionClientAddrMap := s.sessionClientAddrMap.touch session [] }

/-- `get_io_thread_id` -/
def getIoThreadId (env : SchedEnv) (excludeMainThread : Bool) (s : SchedState) :
    SchedState × Nat :=
  let next := s.ioThreadId + 1
  let id := if next % env.ioThreadCount = 0 then (if excludeMainThread then 1 else 0) else next
  ({ s with ioThreadId := id }, id)

/-- `get_data_server_addr` -/
def getDataServerAddr (env : SchedEnv) (excludeMainThread : Bool) (s : SchedState) :
    SchedState × Address :=
  let result := s.getIoThreadId env excludeMainThread
  (result.1, tcpAddress env.ip (result.2 + dataAccessServerPort))

/-- The io thread that handles a request: the main one when there is no other. -/
def ioThread (env : SchedEnv) (s : SchedState) : SchedState × Nat :=
  if 1 < env.ioThreadCount then s.getIoThreadId env true else (s, 0)

/-- `send_data_req` -/
def sendDataReq (env : SchedEnv) (forCall : Bool) (key : Bytes) (s : SchedState) : SchedState :=
  let result := s.ioThread env
  result.1.emit (.dataReq forCall key result.2)

end SchedState

end Pheromone.Scheduler
