import Pheromone.Scheduler.Dispatch

/-!
# Objects sent by executors

The send-object handler of `run`, with `check_object_arrival` and
`check_trigger`: an object sent as ephemeral data starts the functions that
depend on it directly, or is checked against the triggers of its bucket and
notified to the coordinator.
-/

namespace Pheromone.Scheduler

open Lib Common

variable {m : Type → Type} [ForwardMonad m]

/-! ## Triggers on an object that arrived -/

/-- The values of the objects of an action, when all of them are cached. -/
def cachedValues (keyValMap : Map Bytes Value) (names : List Bytes) : Option (List Value) :=
  names.mapM fun name => keyValMap name

/-- What the loops of `check_object_arrival` have built. -/
structure Arrival where
  keyLenMap : Map Bytes Nat
  activeTriggers : List Name
  activeFuncMetadata : List TriggerFunctionMetadata
  fired : List SchedOut

/-- One action of a trigger.  `argFlag` is declared outside of the loop over the
actions: once it is 0 it stays 0. -/
def describeAction (keyValMap : Map Bytes Value) (bucket : Bucket)
    (acc : Arrival × Int) (action : TriggerAction) : Arrival × Int :=
  let names := action.sessionKeys.map fun sessionKey =>
    getLocalObjectName bucket sessionKey.2 sessionKey.1
  match cachedValues keyValMap names with
  | some values =>
      ({ acc.1 with
          activeFuncMetadata := acc.1.activeFuncMetadata ++
            [{ funcName := action.function, funcArgs := values, argFlag := 0 }] }, 0)
  | none =>
      ({ acc.1 with
          keyLenMap := names.foldl (fun m name => m.touch name 0) acc.1.keyLenMap
          activeFuncMetadata := acc.1.activeFuncMetadata ++
            [{ funcName := action.function
               funcArgs := names.flatMap fun name =>
                 [name, Bytes.toDecimal (acc.1.keyLenMap.getD name 0)]
               argFlag := acc.2 }] }, acc.2)

def describeTrigger (keyValMap : Map Bytes Value) (bucket : Bucket) (acc : Arrival)
    (result : Trigger × List TriggerAction) : Arrival :=
  if result.2 = [] then acc
  else
    (result.2.foldl (describeAction keyValMap bucket)
      ({ acc with
          activeTriggers := acc.activeTriggers ++ [result.1.triggerName]
          fired := acc.fired ++ result.2.map (.fired result.1.triggerName) },
        result.1.triggerOption + 1)).1

/-- `check_object_arrival`: the active triggers and the functions to start. -/
def checkObjectArrival (now : Stamp) (bk : BucketKey) (s : SchedState) :
    SchedState × List Name × List TriggerFunctionMetadata :=
  let visited := s.bucketTriggersMap.visit bk.bucket fun trigger =>
    let result := trigger.actionForNewObject (now * 1000) bk
    (result.1, result)
  let arrival := visited.2.foldl (describeTrigger s.keyValMap bk.bucket)
    { keyLenMap := s.keyLenMap, activeTriggers := [], activeFuncMetadata := [], fired := [] }
  ({ s with
      bucketTriggersMap := visited.1
      keyLenMap := arrival.keyLenMap
      sent := s.sent ++ arrival.fired },
    arrival.activeTriggers, arrival.activeFuncMetadata)

/-- `check_trigger`: the active triggers, after their functions were scheduled. -/
def checkTrigger (env : SchedEnv) (now : Stamp) (bk : BucketKey) (sessionId : Session)
    (s : SchedState) : m (SchedState × List Name) :=
  let result := checkObjectArrival now bk s
  (fun s => (s, result.2.1)) <$> result.2.2.foldlM
    (fun s metadata => submit env now none
      { sessionId
        appName := s.bucketAppMap.getD bk.bucket []
        funcName := metadata.funcName
        funcArgs := metadata.funcArgs
        argFlag := metadata.argFlag } s) result.1

/-! ## Telling the coordinator -/

/-- `get_request_id`: the counter is incremented before and after it is used. -/
def getRequestId (env : SchedEnv) (s : SchedState) : SchedState × Bytes :=
  let rid := if (s.rid + 1) % 10000 = 0 then 0 else s.rid + 1
  ({ s with rid := rid + 1 },
    env.ip ++ Bytes.lit ":0_" ++ Bytes.toDecimal rid.toNat)

def notifyPut (env : SchedEnv) (bk : BucketKey) (activeTriggers : List Name)
    (respAddress : Address) (payload : Value) (s : SchedState) : SchedState :=
  match s.bucketCoordMap bk.bucket with
  | none => s
  | some coord =>
      let id := getRequestId env s
      let server := id.1.getDataServerAddr env true
      server.1.emit (.notify coord.notifyHandlerConnectAddress
        { requestId := id.2
          responseAddress := respAddress
          activeTriggerNames := activeTriggers
          addresses := [
            { bucket := bk.bucket
              key := bk.key
              session := bk.session
              ips := [server.2]
              payload }] })

/-! ## The send-object handler -/

/-- The fields of a send-object message. -/
structure SendInfos where
  sessionId : Session
  srcFunction : Name
  tgtFunction : Name
  bucket : Bucket
  sessionKey : Bytes
  /-- The value, or its size when the value is in shared memory. -/
  body : Bytes

/-- `BucketKey(bucket, session_key)` -/
abbrev SendInfos.bucketKey (infos : SendInfos) : BucketKey :=
  BucketKey.ofSessionKey infos.bucket infos.sessionKey

/-- Parse the parameters; a message with fewer fields is ignored. -/
def SendInfos.parse (params : Bytes) : Option SendInfos :=
  match Bytes.split kDelimiterChar params.cstr with
  | sessionId :: srcFunction :: tgtFunction :: bucket :: sessionKey :: body :: _ =>
      some { sessionId, srcFunction, tgtFunction, bucket, sessionKey, body }
  | _ => none

def SendInfos.objName (infos : SendInfos) : Bytes :=
  infos.bucket ++ kDelimiter ++ infos.sessionKey

/-- How the body of an object travels. -/
inductive Packing
  | packed
  | sharedMemory
  | other
  deriving DecidableEq

def Packing.ofByte (b : UInt8) : Packing :=
  if b = 1 then .packed else if b = 2 then .sharedMemory else .other

def storeObject (packing : Packing) (infos : SendInfos) (s : SchedState) : Option SchedState :=
  match packing with
  | .packed =>
      some { s with
        keyValMap := s.keyValMap.set infos.objName infos.body
        keyLenMap := s.keyLenMap.set infos.objName infos.body.length }
  | .sharedMemory =>
      (Bytes.stoi infos.body).map fun size =>
        { s with keyLenMap := s.keyLenMap.set infos.objName (uint32OfInt size).toNat }
  | .other => some s

def directArgs (packing : Packing) (infos : SendInfos) : List Bytes × Int :=
  match packing with
  | .packed => ([infos.body], 0)
  | .sharedMemory => ([infos.objName, infos.body], 1)
  | .other => ([], 1)

/-- Start `targetFuncs` on the same arguments: as many here as there are
available executors, the rest at the coordinator. -/
def batchForward (env : SchedEnv) (now : Stamp) (sessionId : Session) (appName : Name)
    (targetFuncs : List Name) (args : List Bytes × Int) (s : SchedState) : m SchedState :=
  let avail := availExecutorNum s
  let calls := targetFuncs.map fun funcName =>
    ({ sessionId, appName, funcName, funcArgs := args.1, argFlag := args.2 } : SchedCall)
  let local' := (calls.take avail).foldlM (fun s call => submit env now none call s) s
  if avail < targetFuncs.length then
    local' >>= fun s =>
      if env.rejectExtraReq then pure s
      else
        let remote := calls.drop avail
        forwardFrom .batch env sessionId appName remote (remote.map SchedCall.funcArgs) args.2 s
  else local'

/-- Direct invocation by a function that has direct dependencies `targets`. -/
def invokeDirectly (env : SchedEnv) (now : Stamp) (packing : Packing) (infos : SendInfos)
    (appName : Name) (targets : USet Name) (s : SchedState) : m SchedState :=
  let args := directArgs packing infos
  if infos.tgtFunction = [] then
    batchForward env now infos.sessionId appName targets.elems args s
  else if infos.tgtFunction ∈ targets then
    submit env now none
      { sessionId := infos.sessionId
        appName
        funcName := infos.tgtFunction
        funcArgs := args.1
        argFlag := args.2 } s
  else pure s -- "Direct Invocation without pre-defined dependency"

/-- The notification of an object that was checked against the triggers. -/
def notifyChecked (env : SchedEnv) (packing : Packing) (infos : SendInfos)
    (result : SchedState × List Name) : SchedState :=
  let bk := infos.bucketKey
  let s := result.1
  let notified :=
    match packing with
    | .packed =>
        notifyPut env bk result.2 (s.clientAddr infos.sessionId)
          (s.keyValMap.getD infos.objName []) (s.touchClientAddr infos.sessionId)
    | .sharedMemory =>
        notifyPut env bk result.2 (s.clientAddr infos.sessionId) []
          (s.touchClientAddr infos.sessionId)
    | .other => s
  { notified with callId := notified.callId + UInt32.ofNat result.2.length }

/-- The trigger check of an object and its notification. -/
def putObject (env : SchedEnv) (now : Stamp) (packing : Packing) (infos : SendInfos)
    (s : SchedState) : m SchedState :=
  notifyChecked env packing infos <$> checkTrigger env now infos.bucketKey infos.sessionId s

def sendEphemeral (env : SchedEnv) (now : Stamp) (packing : Packing) (infos : SendInfos)
    (s : SchedState) : m SchedState := do
  let s ← noForward (storeObject packing infos s)
  let appName := s.funcAppMap.getD infos.srcFunction []
  match (s.appInfoMap.getD appName {}).directDeps infos.srcFunction with
  | some targets => invokeDirectly env now packing infos appName targets s
  | none =>
      if infos.bucket ≠ bucketNameDirectInvoc then putObject env now packing infos s
      else pure s

def objectData (env : SchedEnv) (packing : Packing) (infos : SendInfos) : Option Value :=
  match packing with
  | .packed => some infos.body
  | .sharedMemory =>
      (Bytes.stoi infos.body).map fun size =>
        env.readShm infos.objName (uint32OfInt size).toNat
  | .other => some []

/-- The data of a put.  The buffer for a packed value has no room for the zero that
`strcpy` writes behind it. -/
def putData (env : SchedEnv) (packing : Packing) (infos : SendInfos) : Option Value :=
  if packing = .packed then none else objectData env packing infos

def sendToStore (env : SchedEnv) (executor : ExecutorId) (reqId : UInt8) (packing : Packing)
    (infos : SendInfos) (s : SchedState) : Option SchedState :=
  (putData env packing infos).map fun value =>
    let put :=
      if packing = .other then s
      else
        let thread := s.ioThread env
        thread.1.emit (.putKvs infos.sessionKey value thread.2)
    { put with
      keyKsvPutMap := put.keyKsvPutMap.set infos.sessionKey
        (put.keyKsvPutMap.getD infos.sessionKey [] ++ [{ executorId := executor, reqId }]) }

def sendToClient (env : SchedEnv) (packing : Packing) (infos : SendInfos) (s : SchedState) :
    Option SchedState :=
  (objectData env packing infos).map fun output =>
    (s.touchClientAddr infos.sessionId).emit (.clientResponse infos.sessionId
      (s.clientAddr infos.sessionId)
      { appName := s.funcAppMap.getD infos.srcFunction [], output })

/-! ## Messages from executors -/

def getRequest (env : SchedEnv) (executor : ExecutorId) (fromEpheStore : Bool) (reqId : UInt8)
    (keyName : Bytes) (s : SchedState) : Option SchedState :=
  let wait (s : SchedState) : SchedState := { s with
    keyRemoteGetMap := s.keyRemoteGetMap.set keyName
      (s.keyRemoteGetMap.getD keyName [] ++ [{ executorId := executor, reqId }]) }
  if fromEpheStore then
    match s.keyLenMap keyName with
    | some size => some (s.emit (.response executor ([3, reqId, 1] ++ Bytes.toDecimal size)))
    | none => some (wait (s.sendDataReq env false keyName))
  else
    ((Bytes.split kDelimiterChar keyName)[1]?).map fun key =>
      let thread := s.ioThread env
      wait (thread.1.emit (.getKvs key thread.2))

/-- The dispatch of `run` on the message types of executors: executor address,
type, then the fields of the type.  The executor address is the id plus one. -/
def executorMessage (env : SchedEnv) (now : Stamp) (message : Bytes) (s : SchedState) :
    m SchedState :=
  match message with
  | address :: type :: fields =>
      let executor := address - 1
      if type = 1 then
        match fields with
        | store :: reqId :: len :: rest =>
            noForward (getRequest env executor (store == 1) reqId (rest.take len.toNat) s)
        | _ => noForward none
      else if 2 ≤ type ∧ type ≤ 4 then
        match fields with
        | reqId :: packingByte :: params =>
            match SendInfos.parse params with
            | none => pure s
            | some infos =>
                let packing := Packing.ofByte packingByte
                if type = 2 then sendEphemeral env now packing infos s
                else if type = 3 then
                  noForward (sendToStore env executor reqId packing infos s)
                else noForward (sendToClient env packing infos s)
        | _ => noForward none
      else if type = 6 then pure (executorBusy executor s)
      else if type = 7 then pure (executorAvailable executor s)
      else pure s
  | _ => noForward none

end Pheromone.Scheduler
