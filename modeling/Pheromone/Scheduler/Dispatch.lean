import Pheromone.Lib.Logged
import Pheromone.Scheduler.State

/-!
# Scheduling a function call

`schedule_func_call` sends a call to an executor of its node, or keeps it in the
delay queue, or forwards it to the coordinator.  `forward_call_via_helper` reads
key arguments in threes: bucket, key and session, size.

The handlers are generic in the log of the vectors that are passed to
`forward_call_via_helper`: without it a handler is a partial function on states, and with
it the log has a vector that cannot be read although the step is undefined.
-/

namespace Pheromone.Scheduler

open Lib Common

/-- Pack the data into a forwarded call below this size. -/
def forwardDataPackingThreshold : UInt32 := 10240

/-! ## Forwarding to the coordinator -/

/-- The loop `for (i = 0; i < size; i += 3)` over `func_args`.  A rest of one or
two arguments makes it read past the end. -/
def triples : List Bytes → Option (List (Bytes × Bytes × Bytes))
  | [] => some []
  | bucket :: sessionKey :: size :: rest =>
      (triples rest).map ((bucket, sessionKey, size) :: ·)
  | _ => none

/-- An addition of `int`s; overflow is undefined. -/
def addInt (a b : Int) : Option Int :=
  if -(2 ^ 31) ≤ a + b ∧ a + b < 2 ^ 31 then some (a + b) else none

def totalDataSize (args : List (List (Bytes × Bytes × Bytes))) : Option Int :=
  args.flatten.foldlM (fun total arg => (Bytes.stoi arg.2.2).bind (addInt total)) 0

def objectName (arg : Bytes × Bytes × Bytes) : Bytes := arg.1 ++ kDelimiter ++ arg.2.1

def realData (env : SchedEnv) (argFlag : Int) (keyLenMap : Map Bytes Nat)
    (arg : Bytes × Bytes × Bytes) : List Bytes :=
  let data := env.readShm (objectName arg) (keyLenMap.getD (objectName arg) 0)
  if argFlag = 1 then [data] else if argFlag = 2 then [arg.2.1, data] else []

def keyArguments (env : SchedEnv) (argFlag : Int) :
    List (Bytes × Bytes × Bytes) → SchedState → SchedState × List Argument
  | [], s => (s, [])
  | arg :: args, s =>
      let server := s.getDataServerAddr env false
      let rest := keyArguments env argFlag args server.1
      (rest.1,
        { body := objectName arg
          argFlag := (uint32OfInt argFlag).toNat
          dataAddress := server.2 } :: rest.2)

def keyRequests (env : SchedEnv) (argFlag : Int) :
    List (Name × List (Bytes × Bytes × Bytes)) → SchedState → SchedState × List FunctionRequest
  | [], s => (s, [])
  | (name, args) :: reqs, s =>
      let result := keyArguments env argFlag args s
      let rest := keyRequests env argFlag reqs result.1
      (rest.1, { name, arguments := result.2 } :: rest.2)

def valueRequest (argFlag : Int) (name : Name) (args : List Bytes) : FunctionRequest :=
  { name
    arguments := args.map fun arg => { body := arg, argFlag := (uint32OfInt argFlag).toNat } }

/-- The end of `forward_func_call`: send the requests to the coordinator of the
application.  Of an application that the node was not told of there is no address, and
the connection throws. -/
def sendForward (env : SchedEnv) (sessionId : Session) (appName : Name) (calls : List SchedCall)
    (requests : List FunctionRequest) (s : SchedState) : Option SchedState :=
  (s.appCoordMap appName).map fun coord =>
    (s.touchClientAddr sessionId).emit (.forward calls coord.forwardFuncConnectAddress
      { appName
        respAddress := s.clientAddr sessionId
        source := env.ip
        sessionId
        syncDataStatus := true
        requests })

/-- `forward_call_via_helper` for several functions; `calls` are the calls that
are forwarded with the arguments `args`. -/
def forwardCallViaHelper (env : SchedEnv) (sessionId : Session) (appName : Name)
    (calls : List SchedCall) (args : List (List Bytes)) (argFlag : Int) (s : SchedState) :
    Option SchedState :=
  let names := calls.map SchedCall.funcName
  if 0 < argFlag then do
    let args ← args.mapM triples
    let total ← totalDataSize args
    if uint32OfInt total < forwardDataPackingThreshold then
      let s' := { s with
        keyLenMap := args.flatten.foldl (fun m arg => m.touch (objectName arg) 0) s.keyLenMap }
      let requests := (names.zip args).map fun req =>
        valueRequest 0 req.1 (req.2.flatMap (realData env argFlag s.keyLenMap))
      sendForward env sessionId appName calls requests s'
    else
      let result := keyRequests env argFlag (names.zip args) s
      sendForward env sessionId appName calls result.2 result.1
  else
    sendForward env sessionId appName calls
      ((names.zip args).map fun req => valueRequest argFlag req.1 req.2) s

/-! ## The log -/

/-- The places in the code that forward calls. -/
inductive ForwardSite
  /-- `schedule_func_call` -/
  | schedule
  /-- The batch forwarding of a direct invocation. -/
  | batch
  /-- The delay queue. -/
  | delay
  deriving DecidableEq

/-- The arguments of one function in a call of `forward_call_via_helper`. -/
structure ForwardedArgs where
  site : ForwardSite
  args : List Bytes
  argFlag : Int
  deriving DecidableEq

abbrev ForwardMonad (m : Type → Type) := LogMonad ForwardedArgs m

section Handlers

variable {m : Type → Type} [ForwardMonad m]

def forwardFrom (site : ForwardSite) (env : SchedEnv) (sessionId : Session) (appName : Name)
    (calls : List SchedCall) (args : List (List Bytes)) (argFlag : Int) (s : SchedState) :
    m SchedState :=
  LogMonad.tell (args.map fun args => ({ site, args, argFlag } : ForwardedArgs))
    (forwardCallViaHelper env sessionId appName calls args argFlag s)

/-- A computation that forwards no calls. -/
def noForward {α : Type} (x : Option α) : m α := LogMonad.tell ([] : List ForwardedArgs) x

@[simp] theorem noForward_option {α : Type} (x : Option α) : noForward x = x := rfl

end Handlers

/-! ## Sending to an executor -/

/-- The scan over the executors: it ends at the first warm one, the cold ones
seen before are collected. -/
def selectExecutors (shared : Bool) (isWarm : ExecutorId → Bool) :
    List (ExecutorId × ExecutorStatus) → Option ExecutorId × List ExecutorId
  | [] => (none, [])
  | (id, status) :: rest =>
      if status = .available && isWarm id then (some id, [])
      else
        let result := selectExecutors shared isWarm rest
        if status = .empty || (shared && status = .available) then (result.1, id :: result.2)
        else result

/-- The executor a call of `funcName` is sent to, with the seed afterwards and
whether it is a cold one. -/
def pickExecutor (env : SchedEnv) (funcName : Name) (s : SchedState) :
    Option (ExecutorId × UInt32 × Bool) :=
  let warm := s.functionExecutorMap.getD funcName ∅
  let result := selectExecutors env.sharedExecutor (fun id => id ∈ warm)
    s.executorStatusMap.entries
  let draw := env.randR s.ramSeed
  match result.1 with
  | some id => some (id, draw.2, false)
  | none =>
      (result.2[draw.1 % result.2.length]?).map fun id => (id, draw.2, true)

/-- The function call message: type, argument flag and persist flag in one byte
each, then the session, the function and its arguments. -/
def callMessage (call : SchedCall) (clientAddr : Address) : Bytes :=
  [1, (uint32OfInt (call.argFlag + 1)).toUInt8, if clientAddr = [] then 1 else 2] ++
    call.sessionId ++ kDelimiter ++ call.funcName ++
      call.funcArgs.flatMap fun arg => kDelimiter ++ arg

/-- One iteration of the loop that updates the rerun check queue. -/
def recordRerun (now : Stamp) (call : SchedCall) (s : SchedState)
    (rerun : RerunTriggerTimeout) : SchedState :=
  { s with
    bucketTriggersMap := s.bucketTriggersMap.modify rerun.triggerPtr
      (Trigger.notifySourceFunc call.funcName call.sessionId call.funcArgs call.argFlag)
    rerunCheckQueue := s.rerunCheckQueue ++
      [{ checkTime := now + rerun.timeout * 1000
         session := call.sessionId
         triggerPtr := rerun.triggerPtr }] }

def sendToExecutor (now : Stamp) (call : SchedCall) (executor : ExecutorId) (seed : UInt32)
    (cold : Bool) (s : SchedState) : SchedState :=
  let executors := s.functionExecutorMap.getD call.funcName ∅
  let s := { s with
    ramSeed := seed
    functionExecutorMap :=
      if cold then s.functionExecutorMap.set call.funcName (insert executor executors)
      else s.functionExecutorMap }
  let message := callMessage call (s.clientAddr call.sessionId)
  let s := (s.touchClientAddr call.sessionId).emit (.toExecutor executor call message)
  let s := { s with executorStatusMap := s.executorStatusMap.set executor .await }
  (s.funcTriggerTimeoutMap.getD call.funcName []).foldl (recordRerun now call) s

/-! ## The choice -/

/-- The arguments as they are forwarded: object names are split at `'|'` when
the first argument is one.  `none` is the read of a first argument that does not
exist. -/
def forwardArgs (call : SchedCall) : Option (List Bytes) :=
  if 0 < call.argFlag then
    call.funcArgs.head?.map fun first =>
      if kDelimiterChar ∈ first then
        call.funcArgs.flatMap fun arg =>
          if kDelimiterChar ∈ arg then Bytes.split kDelimiterChar arg else [arg]
      else call.funcArgs
  else some call.funcArgs

section Handlers

variable {m : Type → Type} [ForwardMonad m]

def scheduleFuncCall (env : SchedEnv) (now : Stamp) (call : SchedCall) (s : SchedState) :
    m SchedState :=
  match pickExecutor env call.funcName s with
  | some (executor, seed, cold) => pure (sendToExecutor now call executor seed cold s)
  | none =>
      if 0 < env.schedDelayTime then
        pure { s with
          delayCallQueue := s.delayCallQueue ++ [{ call, triggerTime := now }] }
      else if env.rejectExtraReq then pure s
      else do
        let args ← noForward (forwardArgs call)
        forwardFrom .schedule env call.sessionId call.appName [call] [args] call.argFlag s

/-- A call that comes from outside of `schedule_func_call`. -/
def submit (env : SchedEnv) (now : Stamp) (callId : Option UInt32) (call : SchedCall)
    (s : SchedState) : m SchedState :=
  scheduleFuncCall env now call (s.emit (.submit callId call))

end Handlers

/-! ## Executor reports -/

def executorBusy (executor : ExecutorId) (s : SchedState) : SchedState :=
  { s with executorStatusMap := s.executorStatusMap.set executor .busy }

/-- The executor available flag: an executor that has not reported a call before
stays cold. -/
def executorAvailable (executor : ExecutorId) (s : SchedState) : SchedState :=
  let status := s.executorStatusMap.getD executor .empty
  { s with
    executorStatusMap := s.executorStatusMap.set executor
      (if status = .empty ∨ status = .await then .empty else .available) }

/-! ## The delay queue -/

def isAvail (status : ExecutorStatus) : Bool := status = .empty || status = .available

def availExecutorNum (s : SchedState) : Nat :=
  s.executorStatusMap.entries.countP fun entry => isAvail entry.2

section Handlers

variable {m : Type → Type} [ForwardMonad m]

/-- The first loop: try the front calls again, at most `n` of them.  A call that
is still not sent goes to the back of the queue, with a new time.  `clock` is
what the clock shows at each try. -/
def retryDelayed (env : SchedEnv) (clock : Nat → Stamp) : Nat → SchedState → m SchedState
  | 0, s => pure s
  | n + 1, s =>
      match s.delayCallQueue with
      | [] => pure s
      | delayed :: _ => do
          let s' ← scheduleFuncCall env (clock n) delayed.call s
          retryDelayed env clock n { s' with delayCallQueue := s'.delayCallQueue.tail }

/-- The second loop: forward the calls at the front that waited too long. -/
def forwardDelayed (env : SchedEnv) (stamp : Stamp) :
    List DelayFunctionCall → SchedState → m SchedState
  | [], s => pure { s with delayCallQueue := [] }
  | delayed :: rest, s =>
      if (env.schedDelayTime : Int) < stamp - delayed.triggerTime then
        if env.rejectExtraReq then forwardDelayed env stamp rest s
        else do
          let s' ← forwardFrom .delay env delayed.call.sessionId delayed.call.appName
            [delayed.call] [delayed.call.funcArgs] delayed.call.argFlag s
          forwardDelayed env stamp rest s'
      else pure { s with delayCallQueue := delayed :: rest }

/-- Delay forwarding in the main loop. -/
def delayPass (env : SchedEnv) (clock : Nat → Stamp) (stamp : Stamp) (s : SchedState) :
    m SchedState := do
  let s' ← retryDelayed env clock (availExecutorNum s) s
  forwardDelayed env stamp s'.delayCallQueue s'

end Handlers

end Pheromone.Scheduler
