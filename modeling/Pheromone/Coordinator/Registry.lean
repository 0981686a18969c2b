import Pheromone.Coordinator.State

/-!
# Buckets, triggers, applications and nodes

The handlers that change what a coordinator knows: `bucket_op_handler`,
`trigger_op_handler`, `app_register_handler` and the status update of the main
loop.  The last two handlers of operations broadcast an `UpdateCoordMsg` to the
nodes in `node_status_map`.
-/

namespace Pheromone.Coordinator

open Lib Common

def broadcast (c : CoordState) (msg : UpdateCoordMsg) : List CoordOut :=
  c.nodeStatusMap.entries.map fun ipStatus => .update (triggerUpdateAddress ipStatus.1) msg

/-! ## Bucket operations -/

def bucketOpHandler (c : CoordState) (request : BucketOperationRequest) :
    CoordState × List CoordOut :=
  let response : BucketOperationResponse :=
    { bucketName := request.bucketName, responseId := request.requestId }
  let reply (error : KVSError) : List CoordOut :=
    [.bucketResponse request.responseAddress { response with error }]
  match request.operationType with
  | .createBucket =>
      match c.bucketAppMap request.bucketName with
      | some _ => (c, reply .bucketExist)
      | none =>
          ({ c with
              appBucketsMap := c.appBucketsMap.set request.appName
                (insert request.bucketName (c.appBucketsMap.getD request.appName ∅))
              bucketAppMap := c.bucketAppMap.set request.bucketName request.appName },
            reply .success)
  | .deleteBucket =>
      match c.bucketAppMap request.bucketName with
      | none => (c, reply .bucketNE)
      | some _ =>
          ({ c with
              appBucketsMap := c.appBucketsMap.set request.appName
                ((c.appBucketsMap.getD request.appName ∅).erase request.bucketName)
              bucketAppMap := c.bucketAppMap.erase request.bucketName
              bucketTriggersMap := c.bucketTriggersMap.erase request.bucketName },
            reply .success)
  | .unrecognized _ => (c, reply .success)

/-! ## Trigger operations -/

def CoordState.pushTrigger (c : CoordState) (bucket : Bucket) (trigger : Trigger) : CoordState :=
  { c with
    bucketTriggersMap := c.bucketTriggersMap.set bucket (c.triggersOf bucket ++ [trigger]) }

def triggerMessage (c : CoordState) (request : TriggerOperationRequest) : UpdateCoordMsg :=
  { ip := c.privateIp, threadId := c.threadId, appName := request.appName }

/-- `ADD_TRIGGER` on an existing bucket.  An unknown primitive type makes a null
pointer that is dereferenced later on. -/
def addTrigger (now : TimePoint) (c : CoordState) (request : TriggerOperationRequest) :
    Option (CoordState × UpdateCoordMsg) :=
  (genTriggerPointer now request.primitiveType request.triggerName request.primitive).map
    fun pointer =>
      let trigger := pointer.setTriggerOption (intOfUInt32 request.triggerOption)
      (c.pushTrigger request.bucketName trigger,
        if trigger.type = .byTime then triggerMessage c request
        else
          { triggerMessage c request with
            triggers := [
              { bucketName := request.bucketName
                triggerName := request.triggerName
                triggerOption := request.triggerOption
                primitiveType := request.primitiveType
                primitive := trigger.dumpPrimitive
                hints := request.hints }] })

/-- `DELETE_TRIGGER` on an existing bucket: every trigger of that name goes. -/
def deleteTrigger (c : CoordState) (request : TriggerOperationRequest) :
    CoordState × UpdateCoordMsg :=
  let triggers := c.triggersOf request.bucketName
  let kept := triggers.filter fun trigger => trigger.triggerName ≠ request.triggerName
  ({ c with bucketTriggersMap := c.bucketTriggersMap.set request.bucketName kept },
    if kept.length < triggers.length then
      { triggerMessage c request with
        msgType := 2
        triggers := [
          { bucketName := request.bucketName, triggerName := request.triggerName }] }
    else triggerMessage c request)

def triggerOpHandler (now : TimePoint) (c : CoordState) (request : TriggerOperationRequest) :
    Option (CoordState × List CoordOut) :=
  let response : TriggerOperationResponse :=
    { bucketName := request.bucketName
      triggerName := request.triggerName
      responseId := request.requestId }
  let finish (error : KVSError) (result : CoordState × UpdateCoordMsg) :
      CoordState × List CoordOut :=
    (result.1,
      .triggerResponse request.responseAddress { response with error } ::
        broadcast result.1 result.2)
  match request.operationType with
  | .addTrigger =>
      match c.bucketAppMap request.bucketName with
      | some _ => (addTrigger now c request).map (finish .success)
      | none => some (finish .bucketNE (c, triggerMessage c request))
  | .deleteTrigger =>
      match c.bucketAppMap request.bucketName with
      -- the error is not set when nothing was found, and then reads as success
      | some _ => some (finish .success (deleteTrigger c request))
      | none => some (finish .bucketNE (c, triggerMessage c request))
  | .unrecognized _ => some (finish .success (c, triggerMessage c request))

def hasEffect (c : CoordState) (request : TriggerOperationRequest) : Bool :=
  (c.bucketAppMap request.bucketName).isSome &&
    match request.operationType with
    | .addTrigger => true
    | .deleteTrigger =>
        (c.triggersOf request.bucketName).any fun t => t.triggerName = request.triggerName
    | .unrecognized _ => false

theorem triggersOf_pushTrigger (c : CoordState) (bucket b : Bucket) (t : Trigger) :
    (c.pushTrigger bucket t).triggersOf b =
      if b = bucket then c.triggersOf bucket ++ [t] else c.triggersOf b :=
  Map.getD_set _ _ _ _ _

theorem triggersOf_deleteTrigger (c : CoordState) (request : TriggerOperationRequest)
    (b : Bucket) :
    (deleteTrigger c request).1.triggersOf b =
      if b = request.bucketName then
        (c.triggersOf request.bucketName).filter fun t => t.triggerName ≠ request.triggerName
      else c.triggersOf b :=
  Map.getD_set _ _ _ _ _

/-! ## Applications -/

def bucketOfTarget (tgtFunction : Name) : Bucket := Bytes.lit "b_" ++ tgtFunction

def keyOfSource (srcFunction : Name) : Key := Bytes.lit "k_" ++ srcFunction

/-- `"t_" + std::to_string(type) + "_" + tgt_function` -/
def dependencyTriggerName (number : Nat) (tgtFunction : Name) : Name :=
  Bytes.lit "t_" ++ Bytes.toDecimal number ++ Bytes.lit "_" ++ tgtFunction

def dependencyEntity (bucket : Bucket) (trigger : Trigger) : TriggerEntity :=
  { bucketName := bucket
    triggerName := trigger.triggerName
    triggerOption := uint32OfInt trigger.triggerOption
    primitiveType := trigger.type
    primitive := trigger.dumpPrimitive }

def dependencyTrigger (tgtFunction : Name) (number : Nat) (state : TriggerState) : Trigger :=
  { targetFunction := tgtFunction
    triggerName := dependencyTriggerName number tgtFunction
    triggerOption := 0
    state }

/-- The trigger that a dependency other than `DIRECT` asks for, if it asks for
one.  The outer `none` is a description that does not parse. -/
def triggerOfDependency (now : TimePoint) (dependency : DataDependency) (tgtFunction : Name) :
    Option (Option Trigger) :=
  match dependency.type with
  | .manyToOne =>
      some (some (dependencyTrigger tgtFunction 1
        (.bySet (BySetTrigger.new (USet.ofList (dependency.srcFunctions.map keyOfSource))))))
  | .kOutOfN =>
      match Bytes.split 44 dependency.description with
      | k :: n :: _ => do
          let k ← Bytes.stoi k
          let n ← Bytes.stoi n
          pure (some (dependencyTrigger tgtFunction 2
            (.redundant (RedundantTrigger.new (uint32OfInt k) (uint32OfInt n)))))
      | _ => none
  | .periodic => do
      let timeWindow ← Bytes.stoi dependency.description
      pure (some (dependencyTrigger tgtFunction 3
        (.byTime (ByTimeTrigger.new (uint32OfInt timeWindow) now))))
  | .direct | .unrecognized _ => some none

def registerDependency (now : TimePoint) (appName : Name)
    (acc : CoordState × UpdateCoordMsg) (dependency : DataDependency) :
    Option (CoordState × UpdateCoordMsg) :=
  let c := acc.1
  let msg := acc.2
  if dependency.type = .direct then
    some (c, { msg with dependencies := msg.dependencies ++ [dependency] })
  else do
    let tgtFunction ← dependency.tgtFunctions.head?
    let trigger ← triggerOfDependency now dependency tgtFunction
    let bucket := bucketOfTarget tgtFunction
    let c := { c with
      appBucketsMap := c.appBucketsMap.set appName
        (insert bucket (c.appBucketsMap.getD appName ∅))
      bucketAppMap := c.bucketAppMap.set bucket appName }
    match trigger with
    | none => pure (c, { msg with triggers := msg.triggers ++ [{ bucketName := bucket }] })
    | some trigger =>
        -- a periodic trigger stays on the coordinator: its entity names the bucket only
        let entity : TriggerEntity :=
          if trigger.type = .byTime then { bucketName := bucket }
          else dependencyEntity bucket trigger
        pure (c.pushTrigger bucket trigger, { msg with triggers := msg.triggers ++ [entity] })

def entityOf (bucket : Bucket) : Option Trigger → TriggerEntity
  | none => { bucketName := bucket }
  | some trigger =>
      if trigger.type = .byTime then { bucketName := bucket } else dependencyEntity bucket trigger

def CoordState.addDependency (appName : Name) (bucket : Bucket) (trigger : Option Trigger)
    (c : CoordState) : CoordState :=
  { c with
    appBucketsMap := c.appBucketsMap.set appName
      (insert bucket (c.appBucketsMap.getD appName ∅))
    bucketAppMap := c.bucketAppMap.set bucket appName
    bucketTriggersMap :=
      match trigger with
      | none => c.bucketTriggersMap
      | some t => c.bucketTriggersMap.set bucket (c.triggersOf bucket ++ [t]) }

theorem triggersOf_addDependency (appName : Name) (bucket b : Bucket) (trigger : Option Trigger)
    (c : CoordState) :
    (c.addDependency appName bucket trigger).triggersOf b =
      c.triggersOf b ++ if bucket = b then trigger.toList else [] := by
  cases trigger with
  | none =>
    rw [Option.toList_none, ite_self, List.append_nil]
    rfl
  | some t =>
    refine (triggersOf_pushTrigger c bucket b t).trans ?_
    by_cases hb : b = bucket
    · rw [if_pos hb, if_pos hb.symm, hb, Option.toList_some]
    · rw [if_neg hb, if_neg (Ne.symm hb), List.append_nil]

theorem registerDependency_cases {now : TimePoint} {appName : Name}
    {acc acc' : CoordState × UpdateCoordMsg} {dependency : DataDependency}
    (h : registerDependency now appName acc dependency = some acc') :
    (dependency.type = .direct ∧
        acc' = (acc.1, { acc.2 with dependencies := acc.2.dependencies ++ [dependency] })) ∨
      (dependency.type ≠ .direct ∧ ∃ tgt trigger, dependency.tgtFunctions.head? = some tgt ∧
        triggerOfDependency now dependency tgt = some trigger ∧
        acc' = (acc.1.addDependency appName (bucketOfTarget tgt) trigger,
          { acc.2 with
            triggers := acc.2.triggers ++ [entityOf (bucketOfTarget tgt) trigger] })) := by
  unfold registerDependency at h
  simp only at h
  by_cases hdirect : dependency.type = .direct
  · rw [if_pos hdirect] at h
    cases h
    exact Or.inl ⟨hdirect, rfl⟩
  · rw [if_neg hdirect] at h
    simp only [Option.bind_eq_bind, Option.bind_eq_some_iff] at h
    obtain ⟨tgt, htgt, trigger, htrigger, h⟩ := h
    refine Or.inr ⟨hdirect, tgt, trigger, htgt, htrigger, ?_⟩
    cases trigger with
    | none =>
      cases h
      rfl
    | some trigger =>
      cases h
      rfl

def appRegisterHandler (now : TimePoint) (c : CoordState) (registration : AppRegistration) :
    Option (CoordState × List CoordOut) :=
  let msg : UpdateCoordMsg :=
    { ip := c.privateIp
      threadId := c.threadId
      appName := registration.appName
      functions := registration.functions }
  (registration.dependencies.foldlM (registerDependency now registration.appName)
    (c, msg)).map fun result => (result.1, broadcast result.1 result.2)

/-! ## Node status -/

/-- The status update branch of the main loop. -/
def updateStatus (c : CoordState) (msg : UpdateStatusMessage) : CoordState :=
  { c with
    nodeStatusMap := c.nodeStatusMap.set msg.ip
      { availExecutors := intOfUInt32 msg.availExecutors
        functions := msg.functions.toFinset } }

end Pheromone.Coordinator
