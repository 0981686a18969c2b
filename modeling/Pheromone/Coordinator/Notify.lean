import Pheromone.Coordinator.FuncCall

/-!
# Notified objects

`notify_handler`: a scheduler reports an object that was put on its node and the
triggers that the object already fired there.  The coordinator runs its own
copy of every trigger of the bucket on the object, starts the functions of the
actions that are not skipped as active, and tells the nodes of the bucket to
clear the triggers it fired.
-/

namespace Pheromone.Coordinator

open Lib Common

/-- `val_to_batch`, when every object of the action came with its value. -/
def batchedValues (c : CoordState) (bucket : Bucket) (sessionKeys : List (Session × Key)) :
    Option (List Value) :=
  sessionKeys.mapM fun sessionKey =>
    c.bucketKeyValMap (getLocalObjectName bucket sessionKey.2 sessionKey.1)

/-- An argument by key and the node that has the object.  `none` when no address
is known for the key: the source dereferences the end of an empty set. -/
def keyArgument (c : CoordState) (bucket : Bucket) (argFlag : Int)
    (sessionKey : Session × Key) : Option (Argument × Address) := do
  let keys ← c.bucketKeyAddressMap bucket
  let addresses ← keys sessionKey.2
  let dataAddress ← addresses.elems.head?
  let ip ← ipOfAddress dataAddress
  pure ({ body := getLocalObjectName bucket sessionKey.2 sessionKey.1
          argFlag := (uint32OfInt argFlag).toNat
          dataAddress }, ip)

/-- The arguments of a call and the nodes that hold its by-key arguments. -/
def actionArguments (c : CoordState) (bucket : Bucket) (argFlag : Int)
    (sessionKeys : List (Session × Key)) : Option (List Argument × USet Address) :=
  match batchedValues c bucket sessionKeys with
  | some values =>
      some ([{ body := values.flatMap fun value => value ++ kDelimiter, argFlag := 0 }],
        USet.empty)
  | none =>
      (sessionKeys.mapM (keyArgument c bucket argFlag)).map fun args =>
        (args.map Prod.fst, USet.ofList (args.map Prod.snd))

/-- The best node among those that hold the data.  Looking a node up adds it to
`node_status_map` with no executors. -/
def visitDataNode (acc : UMap Address NodeStatus × BestNode) (ip : Address) :
    UMap Address NodeStatus × BestNode :=
  (acc.1.touch ip {}, acc.2.visit ip (acc.1.getD ip {}).availExecutors)

/-- `routed_worker`, empty when no node has a free executor. -/
def routeAction (nodes : UMap Address NodeStatus) (dataNode : USet Address) :
    UMap Address NodeStatus × Address :=
  let data := dataNode.elems.foldl visitDataNode (nodes, {})
  if data.2.node = [] then
    (data.1,
      (data.1.entries.foldl
        (fun best entry => best.visit entry.1 entry.2.availExecutors) data.2).node)
  else (data.1, data.2.node)

def dispatchAction (randR : RandR) (bk : BucketKey) (respAddress : Address) (trigger : Trigger)
    (acc : CoordState × List CoordOut) (action : TriggerAction) :
    Option (CoordState × List CoordOut) :=
  let c := acc.1
  (actionArguments c bk.bucket (trigger.triggerOption + 1) action.sessionKeys).map fun args =>
    let internalCall : FunctionCall :=
      { appName := c.bucketAppMap.getD bk.bucket []
        respAddress
        syncDataStatus := true
        sessionId := bk.session
        requests := [{ name := action.function, arguments := args.1 }] }
    let route := routeAction c.nodeStatusMap args.2
    let c := { c with
      bucketAppMap := c.bucketAppMap.touch bk.bucket []
      nodeStatusMap := route.1 }
    let out := acc.2 ++ [.fired trigger.triggerName action]
    if route.2 = [] then (c, out)
    else
      let draw := randR c.seed
      let status := c.nodeStatusMap.getD route.2 {}
      ({ c with
          seed := draw.2
          nodeStatusMap := c.nodeStatusMap.set route.2
            { status with availExecutors := status.availExecutors - 1 } },
        out ++ [.call (getFuncExecAddress route.2 (draw.1 % c.ioThreadNum)) internalCall])

structure TriggerPass where
  state : CoordState
  out : List CoordOut
  /-- The triggers already visited, with their new states. -/
  visited : List Trigger
  /-- `triggered_name` -/
  triggeredName : List Name

def TriggerPass.visit (randR : RandR) (now : TimePoint) (activeTriggers : List Name)
    (bk : BucketKey) (respAddress : Address) (pass : TriggerPass) (trigger : Trigger) :
    Option TriggerPass :=
  let result := trigger.actionForNewObject now bk
  let visited := pass.visited ++ [result.1]
  -- an active trigger has already taken effect in the local scheduler
  if trigger.triggerName ∈ activeTriggers then some { pass with visited }
  else if result.2 = [] then some { pass with visited }
  else
    (result.2.foldlM (dispatchAction randR bk respAddress trigger) (pass.state, pass.out)).map
      fun dispatched =>
        { state := dispatched.1
          out := dispatched.2
          visited
          triggeredName :=
            if trigger.type = .byTime then pass.triggeredName
            else pass.triggeredName ++ [trigger.triggerName] }

def clearMessage (bk : BucketKey) (triggeredName : List Name) : UpdateCoordMsg where
  msgType := 1
  triggers := triggeredName.map fun name =>
    { bucketName := bk.bucket, triggerName := name, session := bk.session }

/-- Record where an object is, and its value when it came along. -/
def recordObject (c : CoordState) (bk : BucketKey) (ip nodeIp : Address) (payload : Value) :
    CoordState :=
  { c with
    bucketNodeMap := c.bucketNodeMap.set bk.bucket
      ((c.bucketNodeMap.getD bk.bucket USet.empty).insert nodeIp)
    bucketKeyAddressMap := updateAddress bk ip c.bucketKeyAddressMap
    bucketKeyValMap :=
      if payload = [] then c.bucketKeyValMap
      else c.bucketKeyValMap.set bk.shmKeyName payload }

/-- Check the triggers of the bucket and synchronise with its nodes. -/
def checkTriggers (randR : RandR) (now : TimePoint) (activeTriggers : List Name)
    (bk : BucketKey) (respAddress : Address) (c : CoordState) :
    Option (CoordState × List CoordOut) :=
  ((c.triggersOf bk.bucket).foldlM
    (TriggerPass.visit randR now activeTriggers bk respAddress)
    { state := c, out := [], visited := [], triggeredName := [] }).map fun pass =>
      let c := { pass.state with
        bucketTriggersMap := c.bucketTriggersMap.set bk.bucket pass.visited }
      if pass.triggeredName = [] then (c, pass.out)
      else
        ({ c with bucketNodeMap := c.bucketNodeMap.touch bk.bucket USet.empty },
          pass.out ++ (c.bucketNodeMap.getD bk.bucket USet.empty).elems.map fun ip =>
            .update (triggerUpdateAddress ip) (clearMessage bk pass.triggeredName))

/-- The loop over the addresses of a request. An object without a value whose
bucket does not exist ends it. -/
def notifyAddresses (randR : RandR) (now : TimePoint) (request : KeyNotifyRequest) :
    List BucketKeyAddress → CoordState → List CoordOut → Option (CoordState × List CoordOut)
  | [], c, out => some (c, out)
  | address :: rest, c, out =>
      match address.ips.head? with
      | none => none
      | some ip =>
          if address.payload = [] ∧ c.bucketAppMap address.bucket = none then some (c, out)
          else
            (ipOfAddress ip).bind fun nodeIp =>
              (checkTriggers randR now request.activeTriggerNames address.bucketKey
                request.responseAddress
                (recordObject c address.bucketKey ip nodeIp address.payload)).bind
                fun result =>
                  notifyAddresses randR now request rest result.1 (out ++ result.2)

def notifyHandler (randR : RandR) (now : TimePoint) (c : CoordState)
    (request : KeyNotifyRequest) : Option (CoordState × List CoordOut) :=
  notifyAddresses randR now request request.addresses c []

def firedOf (outs : List CoordOut) : List (Name × TriggerAction) :=
  outs.filterMap fun out =>
    match out with
    | .fired name action => some (name, action)
    | _ => none

end Pheromone.Coordinator
