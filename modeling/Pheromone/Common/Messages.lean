import Pheromone.Common.Names

/-!
# Messages

The protocol buffer messages of `operation.proto`, `kvs.proto` and
`common.proto` that the modelled code reads or writes.  Serialising and parsing
are taken to return the message, so a message is passed as its value.  Enums are
open in proto3: a number without a name is `unrecognized`.
-/

namespace Pheromone.Common

open Lib

/-! ## Function calls -/

structure Argument where
  body : Bytes
  /-- 0: the value; 1: a key to read; 2: a key to pass with its value. -/
  argFlag : Nat
  dataAddress : Address := []
  deriving DecidableEq, Repr

structure FunctionRequest where
  name : Name
  arguments : List Argument
  deriving DecidableEq, Repr

structure FunctionCall where
  appName : Name := []
  requests : List FunctionRequest := []
  /-- The node that forwards the call, empty for a client. -/
  source : Address := []
  requestId : Bytes := []
  /-- Where the client waits for the output, empty when it does not. -/
  respAddress : Address := []
  sessionId : Session := []
  syncDataStatus : Bool := false
  deriving DecidableEq, Repr

structure FunctionCallResponse where
  appName : Name := []
  requestId : Bytes := []
  output : Value := []
  errorNo : Nat := 0
  deriving DecidableEq, Repr

/-! ## Object notifications -/

structure BucketKeyAddress where
  bucket : Bucket
  key : Key
  session : Session
  ips : List Address := []
  payload : Value := []
  deriving DecidableEq, Repr

def BucketKeyAddress.bucketKey (address : BucketKeyAddress) : BucketKey :=
  { bucket := address.bucket, key := address.key, session := address.session }

structure KeyNotifyRequest where
  responseAddress : Address
  addresses : List BucketKeyAddress
  activeTriggerNames : List Name
  requestId : Bytes
  deriving DecidableEq, Repr

/-! ## Queries -/

inductive KVSError
  | success
  | bucketNE
  | keyNE
  | bucketExist
  deriving DecidableEq, Repr

structure KeyQueryRequest where
  responseAddress : Address := []
  addresses : List BucketKeyAddress
  requestId : Bytes := []
  deriving DecidableEq, Repr

structure KeyQueryResponse where
  addresses : List BucketKeyAddress
  error : KVSError
  responseId : Bytes
  deriving DecidableEq, Repr

/-! ## Triggers -/

inductive PrimitiveType
  | immediate
  | byName
  | byBatchSize
  | bySet
  | dynamicGroup
  | redundant
  | byTime
  | unrecognized (number : Nat)
  deriving DecidableEq, Repr

/-- The fields of the seven primitive messages.  The source keeps a primitive
serialised; its type says which of the fields are read. -/
structure Primitive where
  function : Name := []
  keyName : Key := []
  count : UInt32 := 0
  keySet : List Key := []
  controlGroup : List Key := []
  k : UInt32 := 0
  n : UInt32 := 0
  timeWindow : UInt32 := 0
  deriving DecidableEq, Repr

structure RerunHint where
  sourceFunction : Name
  sourceKey : Key
  timeout : Nat
  deriving DecidableEq, Repr

structure TriggerEntity where
  bucketName : Bucket := []
  triggerName : Name := []
  triggerOption : UInt32 := 0
  primitiveType : PrimitiveType := .immediate
  primitive : Primitive := {}
  session : Session := []
  hints : List RerunHint := []
  deriving DecidableEq, Repr

inductive TriggerOperationType
  | addTrigger
  | deleteTrigger
  | unrecognized (number : Nat)
  deriving DecidableEq, Repr

structure TriggerOperationRequest where
  operationType : TriggerOperationType
  appName : Name := []
  bucketName : Bucket
  triggerName : Name
  triggerOption : UInt32 := 0
  primitiveType : PrimitiveType := .immediate
  primitive : Primitive := {}
  requestId : Bytes := []
  responseAddress : Address := []
  hints : List RerunHint := []
  deriving DecidableEq, Repr

structure TriggerOperationResponse where
  bucketName : Bucket
  triggerName : Name
  responseId : Bytes
  error : KVSError := .success
  deriving DecidableEq, Repr

/-! ## Buckets and applications -/

inductive BucketOperationType
  | createBucket
  | deleteBucket
  | unrecognized (number : Nat)
  deriving DecidableEq, Repr

structure BucketOperationRequest where
  operationType : BucketOperationType
  appName : Name
  bucketName : Bucket
  requestId : Bytes := []
  responseAddress : Address := []
  deriving DecidableEq, Repr

structure BucketOperationResponse where
  bucketName : Bucket
  responseId : Bytes
  error : KVSError := .success
  deriving DecidableEq, Repr

inductive DependencyType
  | direct
  | manyToOne
  | kOutOfN
  | periodic
  | unrecognized (number : Nat)
  deriving DecidableEq, Repr

structure DataDependency where
  type : DependencyType
  srcFunctions : List Name
  tgtFunctions : List Name
  description : Bytes := []
  deriving DecidableEq, Repr

structure AppRegistration where
  appName : Name
  functions : List Name
  dependencies : List DataDependency
  deriving DecidableEq, Repr

/-- What a coordinator tells the schedulers. `msgType` 0 adds an application or
triggers, 1 clears triggers that fired, 2 deletes triggers. -/
structure UpdateCoordMsg where
  ip : Address := []
  threadId : Nat := 0
  appName : Name := []
  functions : List Name := []
  dependencies : List DataDependency := []
  triggers : List TriggerEntity := []
  msgType : Nat := 0
  deriving DecidableEq, Repr

structure UpdateStatusMessage where
  ip : Address
  availExecutors : UInt32
  functions : List Name := []
  deriving DecidableEq, Repr

end Pheromone.Common
