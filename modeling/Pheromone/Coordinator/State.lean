import Pheromone.Common.Trigger

/-!
# The state of a coordinator thread

The maps of `coordinator.cpp` and what a handler can send.  A handler is a
function from the state and a message to the next state and the list of things
it sent, in order.  `none` is a run of the handler with no defined result: an
exception that nobody catches, or an access outside a container.
-/

namespace Pheromone.Coordinator

open Lib Common

structure NodeStatus where
  availExecutors : Int := 0
  functions : Finset Name := ∅
  deriving DecidableEq

structure CoordState where
  privateIp : Address
  threadId : Nat
  ioThreadNum : Nat
  /-- A call is sent to io thread `rand_r(&seed) % io_thread_num`. -/
  ioThreadNum_pos : 0 < ioThreadNum
  seed : UInt32
  bucketKeyAddressMap : Map Bucket (Map Key (USet Address))
  bucketKeyValMap : Map Bytes Value
  bucketNodeMap : Map Bucket (USet Address)
  bucketTriggersMap : Map Bucket (List Trigger)
  appBucketsMap : Map Name (Finset Bucket)
  bucketAppMap : Map Bucket Name
  nodeStatusMap : UMap Address NodeStatus

inductive CoordOut
  /-- A function call for the scheduler that listens on `address`. -/
  | call (address : Address) (call : FunctionCall)
  | callResponse (address : Address) (response : FunctionCallResponse)
  | update (address : Address) (msg : UpdateCoordMsg)
  | triggerResponse (address : Address) (response : TriggerOperationResponse)
  | bucketResponse (address : Address) (response : BucketOperationResponse)
  | queryResponse (address : Address) (response : KeyQueryResponse)
  /-- Not a message: a trigger returned an action that is not skipped as active. -/
  | fired (trigger : Name) (action : TriggerAction)

namespace CoordState

def triggersOf (c : CoordState) (bucket : Bucket) : List Trigger :=
  c.bucketTriggersMap.getD bucket []

def new (privateIp : Address) (threadId ioThreadNum : Nat) (hio : 0 < ioThreadNum)
    (seed : UInt32) : CoordState where
  privateIp := privateIp
  threadId := threadId
  ioThreadNum := ioThreadNum
  ioThreadNum_pos := hio
  seed := seed
  bucketKeyAddressMap := Map.empty
  bucketKeyValMap := Map.empty
  bucketNodeMap := Map.empty
  bucketTriggersMap := Map.empty
  appBucketsMap := Map.empty
  bucketAppMap := Map.empty
  nodeStatusMap := UMap.empty

end CoordState

def getFuncExecAddress (ip : Address) (ioThread : Nat) : Address :=
  tcpAddress ip (funcExecPort + ioThread)

def triggerUpdateAddress (ip : Address) : Address := tcpAddress ip triggerUpdatePort

def updateAddress (bk : BucketKey) (address : Address)
    (m : Map Bucket (Map Key (USet Address))) : Map Bucket (Map Key (USet Address)) :=
  let keys := m.getD bk.bucket Map.empty
  m.set bk.bucket (keys.set bk.key ((keys.getD bk.key USet.empty).insert address))

end Pheromone.Coordinator
