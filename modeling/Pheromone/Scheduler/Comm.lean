import Pheromone.Scheduler.Objects

/-!
# Messages from the coordinator and from other nodes

The branches of `CommHelper::try_recv_msg` that change a scheduler, and the
branches of `run` on the messages it returns.
-/

namespace Pheromone.Scheduler

open Lib Common

variable {m : Type → Type} [ForwardMonad m]

/-! ## Coordinator updates -/

def addFunction (appName : Name) (s : SchedState) (func : Name) : SchedState :=
  let info := s.appInfoMap.getD appName {}
  { s with
    appInfoMap := s.appInfoMap.set appName { info with functions := insert func info.functions }
    funcAppMap := s.funcAppMap.set func appName }

def addDependency (appName : Name) (s : SchedState) (dependency : DataDependency) :
    Option SchedState :=
  if dependency.type ≠ .direct then some s
  else
    dependency.srcFunctions.head?.map fun srcFunc =>
      let info := s.appInfoMap.getD appName {}
      -- the entry is made by the loop over the targets
      if dependency.tgtFunctions = [] then s
      else
        { s with
          appInfoMap := s.appInfoMap.set appName
            { info with
              directDeps := info.directDeps.set srcFunc
                (dependency.tgtFunctions.foldl USet.insert
                  (info.directDeps.getD srcFunc USet.empty)) } }

def installTrigger (bucket : Bucket) (trigger : Trigger) (hints : List RerunHint)
    (s : SchedState) : SchedState :=
  let pointer := s.bucketTriggersMap.objects.length
  { s with
    bucketTriggersMap := s.bucketTriggersMap.push bucket
      (trigger.setRerunMetadata (hints.map fun hint =>
        { sourceFunc := hint.sourceFunction
          sourceKey := hint.sourceKey
          timeout := hint.timeout }))
    funcTriggerTimeoutMap := hints.foldl
      (fun m hint => m.set hint.sourceFunction
        (m.getD hint.sourceFunction [] ++ [{ triggerPtr := pointer, timeout := hint.timeout }]))
      s.funcTriggerTimeoutMap }

def addEntity (now : Stamp) (coord : HandlerThread) (appName : Name) (s : SchedState)
    (entity : TriggerEntity) : SchedState :=
  let info := s.appInfoMap.getD appName {}
  let s := { s with
    bucketCoordMap := s.bucketCoordMap.set entity.bucketName coord
    appInfoMap := s.appInfoMap.set appName
      { info with buckets := info.buckets ++ [entity.bucketName] }
    bucketAppMap := s.bucketAppMap.set entity.bucketName appName }
  if entity.triggerName = [] then s
  else
    match genTriggerPointer (now * 1000) entity.primitiveType entity.triggerName
        entity.primitive with
    | none => s
    | some trigger =>
        installTrigger entity.bucketName
          (trigger.setTriggerOption (intOfUInt32 entity.triggerOption)) entity.hints s

def addUpdate (now : Stamp) (msg : UpdateCoordMsg) (s : SchedState) : Option SchedState :=
  let coord : HandlerThread := { ip := msg.ip, tid := msg.threadId }
  let s := { s with appCoordMap := s.appCoordMap.set msg.appName coord }
  let s := msg.functions.foldl (addFunction msg.appName) s
  (msg.dependencies.foldlM (addDependency msg.appName) s).map fun s =>
    msg.triggers.foldl (addEntity now coord msg.appName) s

def clearUpdate (msg : UpdateCoordMsg) (s : SchedState) : SchedState :=
  msg.triggers.foldl
    (fun s entity => { s with
      bucketTriggersMap := (s.bucketTriggersMap.visit entity.bucketName fun trigger =>
        (if trigger.triggerName = entity.triggerName then trigger.clear entity.session
          else trigger, ())).1 }) s

/-- Message type 2: delete triggers.  The search runs past the end of the list
when the name is not there. -/
def deleteUpdate (msg : UpdateCoordMsg) (s : SchedState) : Option SchedState :=
  msg.triggers.foldlM
    (fun s entity =>
      (s.bucketTriggersMap.eraseFirst entity.bucketName fun trigger =>
        trigger.triggerName = entity.triggerName).map fun triggers =>
          { s with bucketTriggersMap := triggers }) s

def handleUpdate (now : Stamp) (msg : UpdateCoordMsg) (s : SchedState) : Option SchedState :=
  match msg.msgType with
  | 0 => addUpdate now msg s
  | 1 => some (clearUpdate msg s)
  | 2 => deleteUpdate msg s
  | _ => some s

/-! ## Function calls -/

/-- `is_func_arg_keys_` of a request: the flag of the last argument that is a key. -/
def argFlagOf (arguments : List Argument) : Nat :=
  arguments.foldl (fun flag arg => if 0 < arg.argFlag then arg.argFlag else flag) 0

/-- `handle_function_call`: remember where the key arguments are. -/
def cacheAddresses (call : FunctionCall) (s : SchedState) : SchedState :=
  { s with
    keyAddressCache := (call.requests.flatMap FunctionRequest.arguments).foldl
      (fun m arg =>
        if 0 < arg.argFlag ∧ m arg.body = none then m.set arg.body arg.dataAddress else m)
      s.keyAddressCache }

/-- One key argument of a call: a missing object is requested unless a call
already waits for it. -/
def checkKeyArg (env : SchedEnv) (acc : SchedState × Finset Bytes) (arg : Bytes) :
    SchedState × Finset Bytes :=
  let s := acc.1
  match s.keyLenMap arg with
  | some _ => acc
  | none =>
      let s' := if s.keyCallIdMap arg = none then s.sendDataReq env true arg else s
      ({ s' with
          keyCallIdMap := s'.keyCallIdMap.set arg
            ((s'.keyCallIdMap.getD arg USet.empty).insert s'.callId) },
        insert arg acc.2)

def fullArgs (keyLenMap : Map Bytes Nat) (keys : List Bytes) : List Bytes :=
  keys.flatMap fun key => [key, Bytes.toDecimal (keyLenMap.getD key 0)]

/-- `inflight_args` of a request whose arguments `args` are keys. -/
def inflightArgsOf (env : SchedEnv) (sessionId : Session) (request : FunctionRequest)
    (s : SchedState) : SchedState × InflightFuncArgs :=
  let args := request.arguments.map Argument.body
  let argFlag := argFlagOf request.arguments
  let checked := if 0 < argFlag then args.foldl (checkKeyArg env) (s, ∅) else (s, ∅)
  (checked.1,
    { funcName := request.name
      sessionId
      keyArgs := args
      inflightArgs := checked.2
      argFlag })

def InflightFuncArgs.readyCall (inflight : InflightFuncArgs) (appName : Name)
    (keyLenMap : Map Bytes Nat) : SchedCall where
  sessionId := inflight.sessionId
  appName := appName
  funcName := inflight.funcName
  funcArgs :=
    if 0 < inflight.argFlag then fullArgs keyLenMap inflight.keyArgs else inflight.keyArgs
  argFlag := inflight.argFlag

def callRequest (env : SchedEnv) (now : Stamp) (appName : Name) (sessionId : Session)
    (s : SchedState) (request : FunctionRequest) : m SchedState :=
  let result := inflightArgsOf env sessionId request s
  let inflight := result.2
  let s := result.1.emit (.arrived s.callId inflight)
  -- if all the args can be found locally, we just schedule this call
  let scheduled : m SchedState :=
    if inflight.inflightArgs = ∅ then
      submit env now (some s.callId) (inflight.readyCall appName s.keyLenMap) s
    else
      pure { s with
        callIdInflightArgsMap := s.callIdInflightArgsMap.set s.callId inflight }
  (fun s => { s with callId := s.callId + 1 }) <$> scheduled

def handleCall (env : SchedEnv) (now : Stamp) (call : FunctionCall) (s : SchedState) :
    m SchedState :=
  let s := cacheAddresses call s
  call.requests.foldlM (callRequest env now call.appName call.sessionId)
    { s with sessionClientAddrMap := s.sessionClientAddrMap.set call.sessionId call.respAddress }

/-! ## Data responses -/

def resumeCall (env : SchedEnv) (now : Stamp) (key : Bytes) (s : SchedState) (callId : UInt32) :
    m SchedState :=
  let found := s.callIdInflightArgsMap.getD callId
    { funcName := [], sessionId := [], keyArgs := [], inflightArgs := ∅, argFlag := 0 }
  let inflight := { found with inflightArgs := found.inflightArgs.erase key }
  if inflight.inflightArgs = ∅ then
    (fun s : SchedState => { s with
      callIdInflightArgsMap := s.callIdInflightArgsMap.erase callId }) <$>
      submit env now (some callId)
        (inflight.readyCall (s.funcAppMap.getD inflight.funcName []) s.keyLenMap) s
  else
    pure { s with callIdInflightArgsMap := s.callIdInflightArgsMap.set callId inflight }

def answerGets (keyName : Bytes) (size : Bytes) (s : SchedState) : SchedState :=
  match s.keyRemoteGetMap keyName with
  | none => s
  | some requests =>
      { s with
        sent := s.sent ++ requests.map fun request =>
          .response request.executorId ([3, request.reqId, 1] ++ size)
        keyRemoteGetMap := s.keyRemoteGetMap.erase keyName }

abbrev SchedState.receive (key : Bytes) (size : UInt32) (s : SchedState) : SchedState :=
  ({ s with keyLenMap := s.keyLenMap.set key size.toNat }).emit (.dataArrived key)

/-- The branch of `run` on a data response.  The size is appended to the answer
of a get request as one character. -/
def dataResp (env : SchedEnv) (now : Stamp) (key : Bytes) (size : UInt32) (s : SchedState) :
    m SchedState :=
  let s := answerGets key [size.toUInt8] (s.receive key size)
  match s.keyCallIdMap key with
  | none => pure s
  | some callIds =>
      (fun s : SchedState => { s with keyCallIdMap := s.keyCallIdMap.erase key }) <$>
        callIds.elems.foldlM (resumeCall env now key) s

/-! ## The remote store -/

def kvsGetResp (key : Bytes) (size : UInt32) (s : SchedState) : SchedState :=
  let localObjName := kvsKeyPrefix ++ kDelimiter ++ key
  answerGets localObjName (Bytes.toDecimal size.toNat)
    { s with keyLenMap := s.keyLenMap.set localObjName size.toNat }

def kvsPutResp (key : Bytes) (s : SchedState) : SchedState :=
  match s.keyKsvPutMap key with
  | none => s
  | some requests =>
      { s with
        sent := s.sent ++ requests.map fun request =>
          .response request.executorId [3, request.reqId, 1]
        keyKsvPutMap := s.keyKsvPutMap.erase key }

theorem answerGets_eq (keyName size : Bytes) (s : SchedState) :
    answerGets keyName size s = { s with
      sent := s.sent ++ (s.keyRemoteGetMap.getD keyName []).map fun request =>
        .response request.executorId ([3, request.reqId, 1] ++ size)
      keyRemoteGetMap := s.keyRemoteGetMap.erase keyName } := by
  unfold answerGets Map.getD
  cases hrequests : s.keyRemoteGetMap keyName with
  | none => simp [Map.erase_eq_self hrequests]
  | some requests => rfl

theorem kvsPutResp_eq (key : Bytes) (s : SchedState) :
    kvsPutResp key s = { s with
      sent := s.sent ++ (s.keyKsvPutMap.getD key []).map fun request =>
        .response request.executorId [3, request.reqId, 1]
      keyKsvPutMap := s.keyKsvPutMap.erase key } := by
  unfold kvsPutResp Map.getD
  cases hrequests : s.keyKsvPutMap key with
  | none => simp [Map.erase_eq_self hrequests]
  | some requests => rfl

/-! ## The rerun check -/

def topItem : List RerunCheckQueueItem → Option RerunCheckQueueItem
  | [] => none
  | item :: items =>
      match topItem items with
      | none => some item
      | some top => if item.checkTime ≤ top.checkTime then some item else some top

def rerunCall (session : Session) (metadata : TriggerFunctionMetadata) (s : SchedState) :
    SchedCall where
  sessionId := session
  appName := s.funcAppMap.getD metadata.funcName []
  funcName := metadata.funcName
  funcArgs := metadata.funcArgs
  argFlag := metadata.argFlag

def rerunItem (env : SchedEnv) (now : Stamp) (item : RerunCheckQueueItem) (s : SchedState) :
    m SchedState :=
  match s.bucketTriggersMap.objects[item.triggerPtr]? with
  | none => pure s
  | some trigger =>
      (trigger.state.actionForRerun item.session).foldlM
        (fun s metadata => submit env now none (rerunCall item.session metadata s) s) s

/-- The rerun loop, with `fuel` iterations at most; `pop` takes the top at that
time. -/
def rerunCheck (env : SchedEnv) (now reportEnd : Stamp) : Nat → SchedState → m SchedState
  | 0, s => pure s
  | fuel + 1, s =>
      match topItem s.rerunCheckQueue with
      | none => pure s
      | some item =>
          if item.checkTime ≤ reportEnd then do
            let s' ← rerunItem env now item s
            rerunCheck env now reportEnd fuel
              (match topItem s'.rerunCheckQueue with
                | none => s'
                | some top => { s' with rerunCheckQueue := s'.rerunCheckQueue.erase top })
          else pure s

end Pheromone.Scheduler
