import Pheromone.Cluster.Proofs.Placement
import Pheromone.Coordinator.Proofs.DataAddresses
import Pheromone.Scheduler.Proofs.TriggeredCalls

/-!
# The arguments of a triggered function

An action is fired by a scheduler or by the coordinator.  Either of them passes the values
of the objects when it has all of them, and the names otherwise; the option of the trigger
is looked at for the names only.
-/

namespace Pheromone.Cluster

open Lib Common Scheduler Coordinator Executor

variable {argFlag : Int} {cache : Map Bytes Value} {now : Stamp} {randR : RandR}
  {respAddress : Address} {s : SchedState} {scheduled : SchedCall} {sessionId : Session}
  {t : Trigger}

variable {c : CoordState} {bk : BucketKey} {env : SchedEnv} {packed : Prop}
  {readShm : Bytes → Nat → Bytes}
variable {objects : List StoredObject}

/-- `notify_handler` starts the function of `action` with `call`. -/
def FiredRemotely (randR : RandR) (bk : BucketKey) (respAddress : Address) (trigger : Trigger)
    (c : CoordState) (action : TriggerAction) (call : FunctionCall) : Prop :=
  ∃ outs c' address, dispatchAction randR bk respAddress trigger (c, outs) action =
    some (c', outs ++ [.fired trigger.triggerName action, .call address call])

theorem FiredRemotely.arguments {trigger : Trigger} {action : TriggerAction} {call : FunctionCall}
    (h : FiredRemotely randR bk respAddress trigger c action call) :
    ∃ args, actionArguments c bk.bucket (trigger.triggerOption + 1) action.sessionKeys =
        some args ∧
      call.requests = [{ name := action.function, arguments := args.1 }] ∧
      call.sessionId = bk.session := by
  obtain ⟨outs, c', address, hdispatch⟩ := h
  obtain ⟨args, hargs, heq⟩ := Option.map_eq_some_iff.mp hdispatch
  refine ⟨args, hargs, ?_⟩
  simp only at heq
  split at heq
  · have houts := List.append_cancel_left (Prod.mk.inj heq).2
    simp at houts
  · have houts := (Prod.mk.inj heq).2
    rw [List.append_assoc] at houts
    have hcall := List.append_cancel_left houts
    simp only [List.singleton_append, List.cons.injEq, CoordOut.call.injEq, and_true,
      true_and] at hcall
    rw [← hcall.2]
    exact ⟨rfl, rfl⟩

theorem batchedValues_eq (c : CoordState) (bucket : Bucket) (action : TriggerAction) :
    batchedValues c bucket action.sessionKeys =
      cachedValues c.bucketKeyValMap (objectNames bucket action) := by
  unfold batchedValues cachedValues objectNames
  rw [List.mapM_map]
  rfl

theorem actionArguments_of_cached {bucket : Bucket} {action : TriggerAction}
    (h : Cached c.bucketKeyValMap bucket action) (argFlag : Int) :
    actionArguments c bucket argFlag action.sessionKeys = some
      ([{ body := ((objectNames bucket action).map fun name =>
            c.bucketKeyValMap.getD name []).flatMap fun value => value ++ kDelimiter
          argFlag := 0 }], USet.empty) := by
  unfold actionArguments
  rw [batchedValues_eq, cachedValues_of_cached _ _ h]

theorem keyArguments_by_name {bucket : Bucket} {sessionKeys : List (Session × Key)}
    {args : List (Argument × Address)}
    (h : sessionKeys.mapM (keyArgument c bucket argFlag) = some args) :
    args.map (fun arg => arg.1.body) = (sessionKeys.map fun sessionKey =>
        getLocalObjectName bucket sessionKey.2 sessionKey.1) ∧
      ∀ arg ∈ args, arg.1.argFlag = (uint32OfInt argFlag).toNat := by
  have hall := forall₂_of_mapM h
  clear h
  induction hall with
  | nil => exact ⟨rfl, fun _ h => absurd h List.not_mem_nil⟩
  | @cons sessionKey arg sessionKeys args hfirst _ ih =>
    simp only [keyArgument, Option.bind_eq_bind, Option.bind_eq_some_iff, Option.pure_def,
      Option.some.injEq] at hfirst
    obtain ⟨_, -, _, -, _, -, _, -, rfl⟩ := hfirst
    rw [List.map_cons, List.map_cons, ih.1]
    refine ⟨rfl, fun arg harg => ?_⟩
    rcases List.mem_cons.mp harg with rfl | harg
    · rfl
    · exact ih.2 arg harg

theorem actionArguments_by_name {bucket : Bucket} {action : TriggerAction}
    {args : List Argument × USet Address} (hcached : ¬ Cached c.bucketKeyValMap bucket action)
    (h : actionArguments c bucket argFlag action.sessionKeys = some args) :
    args.1.map Argument.body = objectNames bucket action ∧
      ∀ arg ∈ args.1, arg.argFlag = (uint32OfInt argFlag).toNat := by
  unfold actionArguments at h
  rw [batchedValues_eq, cachedValues_of_not_cached _ _ hcached] at h
  obtain ⟨keyArgs, hkeyArgs, rfl⟩ := Option.map_eq_some_iff.mp h
  obtain ⟨hnames, hflags⟩ := keyArguments_by_name hkeyArgs
  refine ⟨?_, fun arg harg => ?_⟩
  · rw [List.map_map]
    exact hnames
  · obtain ⟨keyArg, hmem, rfl⟩ := List.mem_map.mp harg
    exact hflags keyArg hmem

theorem requestCall_batch (sessionId : Session) (name : Name) (body : Bytes) (appName : Name)
    (keyLenMap : Map Bytes Nat) :
    requestCall sessionId { name, arguments := [{ body, argFlag := 0 }] } appName keyLenMap =
      { sessionId, appName, funcName := name, funcArgs := [body], argFlag := 0 } :=
  requestCall_valueRequest sessionId name [body] appName keyLenMap

/-! ## Small values on both ways -/

/-- The bytes were cut out of a message as the body of an object. -/
def SentValue (value : Value) : Prop :=
  ∃ params infos, SendInfos.parse params = some infos ∧ infos.body = value

theorem SentValue.plain {value : Value} (h : SentValue value) : Plain value := by
  obtain ⟨params, infos, hparse, rfl⟩ := h
  unfold SendInfos.parse at hparse
  split at hparse
  next hsplit =>
    cases hparse
    refine split_cstr_plain params _ ?_
    rw [hsplit]
    simp
  · cases hparse

theorem handleCall_call {call : FunctionCall} {request : FunctionRequest}
    (hrequests : call.requests = [request]) {s' : SchedState}
    (h : handleCall env now call s = some s')
    (hscheduled : s'.submitted = s.submitted ++ [scheduled]) :
    ∃ appName keyLenMap,
      scheduled = requestCall call.sessionId request appName keyLenMap := by
  unfold handleCall at h
  rw [hrequests, List.foldlM_cons] at h
  obtain ⟨s₁, hstep, hend⟩ := Option.bind_eq_some_iff.mp h
  cases hend
  obtain ⟨appName, heq⟩ := (RequestStep.arrives hstep).call_eq hscheduled
  exact ⟨appName, _, heq⟩

theorem functionArguments_batch {call call' : SchedCall}
    (hsession : call.sessionId = call'.sessionId ∨ Plain call.sessionId ∧ Plain call'.sessionId)
    (hname : call'.funcName = call.funcName) (hflag : call.argFlag = 0) (hflag' : call'.argFlag = 0)
    (hvalues : ∀ value ∈ call.funcArgs, Plain value ∧ value ≠ []) (hne : call.funcArgs ≠ [])
    (hbatch : call'.funcArgs = [call.funcArgs.flatMap fun value => value ++ kDelimiter])
    (readShm readShm' : Bytes → Nat → Bytes) (clientAddr clientAddr' : Address) :
    functionArguments readShm (callMessage call clientAddr) =
      functionArguments readShm' (callMessage call' clientAddr') := by
  have hfields : ∀ {sessionId : Session}, Plain sessionId →
      readFields (fieldText (sessionId :: call.funcName :: call.funcArgs)) =
        sessionId :: Bytes.split kDelimiterChar
          (Bytes.cstr (call.funcName ++ fieldText call.funcArgs)) := by
    intro sessionId hplain
    rw [← split_callMessage]
    exact split_field _ hplain
  rw [functionArguments_read, functionArguments_read, hflag, hflag', hname, hbatch,
    readFields_batch call'.sessionId call.funcName hvalues hne]
  rcases hsession with hsame | ⟨hplain, hplain'⟩
  · rw [hsame]
    rfl
  · rw [hfields hplain, hfields hplain']
    rcases Bytes.split kDelimiterChar (Bytes.cstr (call.funcName ++ fieldText call.funcArgs)) with
      _ | ⟨function, args⟩ <;> rfl

/-- Fired by the scheduler or by the coordinator, an action on small objects gives its
function the same arguments. -/
theorem firings_deliver_alike {bk bk' : BucketKey} (hbucket : bk'.bucket = bk.bucket)
    {action : TriggerAction} (hobjects : action.sessionKeys ≠ []) {s : SchedState} {c : CoordState}
    (hvalues : ∀ name ∈ objectNames bk.bucket action, ∃ value, s.keyValMap name = some value ∧
      c.bucketKeyValMap name = some value ∧ SentValue value ∧ value ≠ [])
    {now : Stamp} {t : Trigger} {before : List TriggerAction} {metadata : TriggerFunctionMetadata}
    (hlocal : FiredLocally now bk s t before action metadata)
    {randR : RandR} {respAddress : Address} {trigger : Trigger} {call : FunctionCall}
    (hremote : FiredRemotely randR bk' respAddress trigger c action call)
    {env : SchedEnv} {now' : Stamp} {node node' : SchedState} {scheduled : SchedCall}
    (hnode : handleCall env now' call node = some node')
    (hscheduled : node'.submitted = node.submitted ++ [scheduled]) {sessionId : Session}
    (hsession : sessionId = bk'.session ∨ Plain sessionId ∧ Plain bk'.session) (appName : Name)
    (readShm readShm' : Bytes → Nat → Bytes) (clientAddr clientAddr' : Address) :
    functionArguments readShm
        (callMessage (triggeredCall sessionId appName metadata) clientAddr) =
      functionArguments readShm' (callMessage scheduled clientAddr') := by
  have hcached : Cached s.keyValMap bk.bucket action := by
    intro name hname
    obtain ⟨value, hvalue, -⟩ := hvalues name hname
    simp [hvalue]
  have hcached' : Cached c.bucketKeyValMap bk'.bucket action := by
    rw [hbucket]
    intro name hname
    obtain ⟨value, -, hvalue, -⟩ := hvalues name hname
    simp [hvalue]
  let values := (objectNames bk.bucket action).map fun name => s.keyValMap.getD name []
  have hsame : ((objectNames bk'.bucket action).map fun name => c.bucketKeyValMap.getD name []) =
      values := by
    rw [hbucket]
    apply List.map_congr_left
    intro name hname
    obtain ⟨value, hvalue, hvalue', -⟩ := hvalues name hname
    rw [Map.getD_of_some [] hvalue, Map.getD_of_some [] hvalue']
  have hplain : ∀ value ∈ values, Plain value ∧ value ≠ [] := by
    intro value hmem
    obtain ⟨name, hname, rfl⟩ := List.mem_map.mp hmem
    obtain ⟨value, hvalue, -, hsent, hne⟩ := hvalues name hname
    rw [Map.getD_of_some [] hvalue]
    exact ⟨hsent.plain, hne⟩
  have hnonempty : values ≠ [] := by
    simpa [values, objectNames] using hobjects
  have hmetadata : metadata = { funcName := action.function, funcArgs := values, argFlag := 0 } :=
    hlocal.metadata_eq.trans (if_pos hcached)
  obtain ⟨args, hargs, hrequests, hsessionId⟩ := hremote.arguments
  rw [actionArguments_of_cached hcached', hsame] at hargs
  rw [← Option.some.inj hargs] at hrequests
  obtain ⟨appName', keyLenMap, hcall⟩ := handleCall_call hrequests hnode hscheduled
  rw [requestCall_batch, hsessionId] at hcall
  rw [hmetadata, hcall]
  apply functionArguments_batch
  · exact hsession
  · rfl
  · rfl
  · rfl
  · exact hplain
  · exact hnonempty
  · rfl

/-! ### Two objects of a set -/

def pairTrigger : Trigger where
  targetFunction := Bytes.lit "f"
  triggerName := Bytes.lit "t"
  triggerOption := 0
  state := .bySet { BySetTrigger.new (USet.ofList [Bytes.lit "k", Bytes.lit "l"]) with
    sessionPreparedKeysMap := Map.empty.set (Bytes.lit "s") {Bytes.lit "k"} }

def pairObject : BucketKey := ⟨Bytes.lit "b", Bytes.lit "l", Bytes.lit "s"⟩

def pairAction : TriggerAction where
  function := Bytes.lit "f"
  sessionKeys := [(Bytes.lit "s", Bytes.lit "k"), (Bytes.lit "s", Bytes.lit "l")]

def pairValues : Map Bytes Value :=
  (Map.empty.set (getLocalObjectName (Bytes.lit "b") (Bytes.lit "k") (Bytes.lit "s"))
    (Bytes.lit "v")).set (getLocalObjectName (Bytes.lit "b") (Bytes.lit "l") (Bytes.lit "s"))
      (Bytes.lit "w")

def pairNode : SchedState := { SchedState.new 0 0 with
  bucketTriggersMap := Shared.empty.push (Bytes.lit "b") pairTrigger
  keyValMap := pairValues }

def pairCoordinator : CoordState :=
  { CoordState.new (Bytes.lit "10.0.0.1") 0 1 Nat.one_pos 0 with
    bucketKeyValMap := pairValues
    nodeStatusMap := UMap.empty.set (Bytes.lit "10.0.0.2") { availExecutors := 1 } }

def pairCall : FunctionCall where
  appName := []
  respAddress := []
  syncDataStatus := true
  sessionId := Bytes.lit "s"
  requests := [{ name := Bytes.lit "f", arguments := [{ body := Bytes.lit "v|w|", argFlag := 0 }] }]

theorem firings_deliver_alike_pair :
    ∃ node' scheduled,
      FiredLocally 0 pairObject pairNode pairTrigger [] pairAction
        ⟨Bytes.lit "f", [Bytes.lit "v", Bytes.lit "w"], 0⟩ ∧
      FiredRemotely (fun seed => (0, seed)) pairObject [] pairTrigger pairCoordinator pairAction
        pairCall ∧
      handleCall rejectingEnv 0 pairCall (SchedState.new 0 0) = some node' ∧
      node'.submitted = (SchedState.new 0 0).submitted ++ [scheduled] ∧
      functionArguments (fun _ _ => []) (callMessage (triggeredCall (Bytes.lit "s") []
          ⟨Bytes.lit "f", [Bytes.lit "v", Bytes.lit "w"], 0⟩) []) =
        functionArguments (fun _ _ => []) (callMessage scheduled []) := by
  have hlocal : FiredLocally 0 pairObject pairNode pairTrigger [] pairAction
      ⟨Bytes.lit "f", [Bytes.lit "v", Bytes.lit "w"], 0⟩ := ⟨[], [], [], rfl, rfl, rfl⟩
  have hremote : FiredRemotely (fun seed => (0, seed)) pairObject [] pairTrigger pairCoordinator
      pairAction pairCall := ⟨[], _, _, rfl⟩
  have hnode : ∃ node' scheduled,
      handleCall rejectingEnv 0 pairCall (SchedState.new 0 0) = some node' ∧
        node'.submitted = (SchedState.new 0 0).submitted ++ [scheduled] := ⟨_, _, rfl, rfl⟩
  obtain ⟨node', scheduled, hnode, hscheduled⟩ := hnode
  have hvalues : ∀ name ∈ objectNames pairObject.bucket pairAction, ∃ value,
      pairNode.keyValMap name = some value ∧ pairCoordinator.bucketKeyValMap name = some value ∧
        SentValue value ∧ value ≠ [] := by
    intro name hname
    rcases List.mem_pair.mp hname with rfl | rfl
    · exact ⟨Bytes.lit "v", rfl, rfl, ⟨Bytes.lit "s|g||b|ks|v", _, rfl, rfl⟩, by decide⟩
    · exact ⟨Bytes.lit "w", rfl, rfl, ⟨Bytes.lit "s|g||b|ls|w", _, rfl, rfl⟩, by decide⟩
  exact ⟨node', scheduled, hlocal, hremote, hnode, hscheduled,
    firings_deliver_alike rfl (by decide) hvalues hlocal hremote hnode hscheduled (Or.inl rfl)
      [] _ _ [] []⟩

/-! ## The documented shape -/

/-- The objects of an action, with the contents that their names stand for. -/
def actionObjects (content : Bytes → Value) (bucket : Bucket) (action : TriggerAction) :
    List StoredObject :=
  action.sessionKeys.map fun sessionKey =>
    { bucket
      sessionKey := getKeySessionName sessionKey.2 sessionKey.1
      value := content (getLocalObjectName bucket sessionKey.2 sessionKey.1) }

/-- What `trigger_option_` promises: the values, each key name with its value, or the key
names. -/
def documented (option : Int) (objects : List StoredObject) : List Bytes :=
  if option = 0 then objects.map StoredObject.value
  else if option = 1 then objects.flatMap fun o => [o.sessionKey, o.value]
  else objects.map StoredObject.sessionKey

/-- The promise is kept for objects that are passed by value (`packed`) or by name.  By value
it is kept with option 0, and with option 2 by coincidence only; by name it is kept with
options 0 and 1, as long as the sizes are `int`s. -/
def KeepsShape (option : Int) (packed : Prop) (objects : List StoredObject) : Prop :=
  objects = [] ∨
    (packed ∧ (option = 0 ∨ (option = 2 ∧ ∀ o ∈ objects, o.value = o.sessionKey))) ∨
    (¬ packed ∧ (option = 0 ∨ option = 1) ∧ ∀ o ∈ objects, o.value.length < 2 ^ 31)

/-- The names and contents can be fields of a message. -/
structure PlainAction (content : Bytes → Value) (bucket : Bucket) (action : TriggerAction) :
    Prop where
  function : Plain action.function
  function_ne : action.function ≠ []
  names : ∀ o ∈ actionObjects content bucket action, o.PlainNames
  values : ∀ o ∈ actionObjects content bucket action, Plain o.value ∧ o.value ≠ []

/-- A cache has no other values for the objects than their own. -/
def CacheOf (objects : List StoredObject) (cache : Map Bytes Value) : Prop :=
  ∀ o ∈ objects, ∀ value, cache o.name = some value → value = o.value

section Shape

variable {content : Bytes → Value} {bucket : Bucket} {action : TriggerAction} {option : Int}

theorem map_name_actionObjects (content : Bytes → Value) (bucket : Bucket)
    (action : TriggerAction) :
    (actionObjects content bucket action).map StoredObject.name = objectNames bucket action := by
  unfold actionObjects objectNames
  rw [List.map_map]
  rfl

theorem cached_values (hcache : CacheOf (actionObjects content bucket action) cache)
    (hcached : Cached cache bucket action) :
    ((objectNames bucket action).map fun name => cache.getD name []) =
      (actionObjects content bucket action).map StoredObject.value := by
  rw [← map_name_actionObjects content, List.map_map]
  apply List.map_congr_left
  intro o ho
  have hname : o.name ∈ objectNames bucket action := by
    rw [← map_name_actionObjects content]
    exact List.mem_map_of_mem ho
  obtain ⟨value, hvalue⟩ := Option.ne_none_iff_exists'.mp (hcached o.name hname)
  rw [Function.comp_apply, Map.getD_of_some [] hvalue, hcache o ho value hvalue]

theorem length_documented (option : Int) (objects : List StoredObject) :
    (documented option objects).length =
      if option = 1 then 2 * objects.length else objects.length := by
  unfold documented
  by_cases hzero : option = 0
  · simp [hzero]
  · by_cases hone : option = 1
    · simp [hone, List.length_flatMap, Nat.mul_comm]
    · simp [hzero, hone]

theorem values_documented_iff (hoption : option = 0 ∨ option = 1 ∨ option = 2) :
    objects.map StoredObject.value = documented option objects ↔
      KeepsShape option True objects := by
  have hlength := length_documented option objects
  rcases hoption with rfl | rfl | rfl
  · exact iff_of_true rfl (Or.inr (Or.inl ⟨trivial, Or.inl rfl⟩))
  · rw [if_pos rfl] at hlength
    constructor
    · intro heq
      rw [← heq, List.length_map] at hlength
      have hzero : objects.length = 0 := by omega
      exact Or.inl (List.length_eq_zero_iff.mp hzero)
    · rintro (rfl | ⟨-, hzero | ⟨htwo, -⟩⟩ | ⟨hnot, -⟩)
      · rfl
      · cases hzero
      · cases htwo
      · exact absurd trivial hnot
  · have hdocumented : documented 2 objects = objects.map StoredObject.sessionKey := rfl
    rw [hdocumented, List.map_inj_left]
    constructor
    · intro hall
      exact Or.inr (Or.inl ⟨trivial, Or.inr ⟨rfl, hall⟩⟩)
    · rintro (rfl | ⟨-, hzero | ⟨-, hall⟩⟩ | ⟨hnot, -⟩)
      · intro o ho
        cases ho
      · cases hzero
      · exact hall
      · exact absurd trivial hnot

theorem argumentsOf_documented (hoption : option = 0 ∨ option = 1) (objects : List StoredObject) :
    argumentsOf (option + 1) objects = (documented option objects).map .ofString := by
  unfold argumentsOf documented StoredObject.values
  rcases hoption with rfl | rfl
  · simp [List.map_eq_flatMap]
  · simp

theorem functionArguments_flag_three {call : SchedCall} (hcall : Addressed call)
    (hflag : call.argFlag = 3)
    (hargs : fieldText call.funcArgs = fieldText (objects.flatMap StoredObject.triple))
    (hnames : ∀ o ∈ objects, o.PlainNames) (clientAddr : Address) :
    functionArguments readShm (callMessage call clientAddr) = none := by
  rw [functionArguments_callMessage readShm hcall, hflag, hargs, readFields_triples hnames]
  simp only [parseArguments, triples_flatMap]
  rfl

theorem functionArguments_flag_zero {call : SchedCall} (hcall : Addressed call)
    (hflag : call.argFlag = 0)
    (hargs : fieldText call.funcArgs = fieldText (objects.flatMap StoredObject.triple))
    (hnames : ∀ o ∈ objects, o.PlainNames) (clientAddr : Address) :
    functionArguments readShm (callMessage call clientAddr) =
      some (some ((objects.flatMap StoredObject.triple).map .ofString)) := by
  rw [functionArguments_callMessage readShm hcall, hflag, hargs, readFields_triples hnames]
  rfl

theorem not_cached_ne_nil (h : ¬ Cached cache bucket action) :
    actionObjects content bucket action ≠ [] := by
  intro hnil
  refine h fun name hname => ?_
  rw [← map_name_actionObjects content, hnil] at hname
  cases hname

theorem keepsShape_by_name (hpacked : ¬ packed) (hne : objects ≠ []) :
    KeepsShape option packed objects ↔
      (option = 0 ∨ option = 1) ∧ ∀ o ∈ objects, o.value.length < 2 ^ 31 := by
  unfold KeepsShape
  simp [hpacked, hne]

theorem keepsShape_by_value (hpacked : packed) (objects : List StoredObject) :
    KeepsShape option packed objects ↔ KeepsShape option True objects := by
  unfold KeepsShape
  simp [hpacked]

theorem functionArguments_plain_values {readShm : Bytes → Nat → Bytes} {call : SchedCall}
    (hcall : Addressed call) (hflag : call.argFlag = 0)
    (hvalues : ∀ value ∈ call.funcArgs, Plain value ∧ value ≠ []) (clientAddr : Address) :
    functionArguments readShm (callMessage call clientAddr) =
      some (some (call.funcArgs.map .ofString)) := by
  refine (functionArguments_values_iff hcall hflag clientAddr).mpr
    ⟨fun value hvalue => (hvalues value hvalue).1, fun hlast => ?_⟩
  exact (hvalues [] (List.mem_of_getLast? hlast)).2 rfl

theorem PlainAction.plain_values (h : PlainAction content bucket action) :
    ∀ value ∈ (actionObjects content bucket action).map StoredObject.value,
      Plain value ∧ value ≠ [] := by
  intro value hvalue
  obtain ⟨o, ho, rfl⟩ := List.mem_map.mp hvalue
  exact h.values o ho

theorem triples_ne_documented (option : Int) (hne : objects ≠ []) :
    objects.flatMap StoredObject.triple ≠ documented option objects := by
  intro heq
  have hlength := congrArg List.length heq
  have hpos := List.length_pos_iff.mpr hne
  have htriples : (objects.flatMap StoredObject.triple).length = objects.length * 3 := by
    simp [List.length_flatMap, StoredObject.triple]
  rw [length_documented, htriples] at hlength
  split at hlength
  · omega
  · omega

theorem by_value_shape_iff (hoption : option = 0 ∨ option = 1 ∨ option = 2) (hpacked : packed)
    (objects : List StoredObject) :
    some (some ((objects.map StoredObject.value).map FunctionArgument.ofString)) =
        some (some ((documented option objects).map FunctionArgument.ofString)) ↔
      KeepsShape option packed objects := by
  rw [Option.some_inj, Option.some_inj, (List.map_injective_iff.mpr ofString_injective).eq_iff,
    keepsShape_by_value hpacked, values_documented_iff hoption]

theorem by_name_shape_iff (hoption : option = 0 ∨ option = 1 ∨ option = 2) {packed : Prop}
    (hpacked : ¬ packed) (hne : objects ≠ []) {readShm : Bytes → Nat → Bytes} {call : SchedCall}
    (hcall : Addressed call) (hflag : call.argFlag = option + 1)
    (hargs : call.funcArgs = objects.flatMap StoredObject.nameAndSize)
    (hnames : ∀ o ∈ objects, o.PlainNames)
    (hread : ∀ o ∈ objects, readShm o.name o.value.length = o.value) (clientAddr : Address) :
    functionArguments readShm (callMessage call clientAddr) =
        some (some ((documented option objects).map .ofString)) ↔
      KeepsShape option packed objects := by
  have htext : fieldText call.funcArgs = fieldText (objects.flatMap StoredObject.triple) := by
    rw [hargs, fieldText_nameAndSize]
  rw [keepsShape_by_name hpacked hne]
  by_cases hsmall : option = 0 ∨ option = 1
  · have hflags : call.argFlag = 1 ∨ call.argFlag = 2 := by omega
    by_cases hsizes : ∀ o ∈ objects, o.value.length < 2 ^ 31
    · refine iff_of_true ?_ ⟨hsmall, hsizes⟩
      rw [← argumentsOf_documented hsmall, ← hflag]
      exact functionArguments_objects hcall hflags htext hnames
        (fun o ho => ⟨hsizes o ho, hread o ho⟩) clientAddr
    · refine iff_of_false ?_ fun h => hsizes h.2
      push Not at hsizes
      obtain ⟨o, ho, hsize⟩ := hsizes
      rw [functionArguments_oversized hcall hflags htext hnames ho (Nat.not_lt.mpr hsize)]
      exact fun h => by cases h
  · have hthree : call.argFlag = 3 := by omega
    refine iff_of_false ?_ fun h => hsmall h.1
    rw [functionArguments_flag_three hcall hthree htext hnames]
    exact fun h => by cases h

theorem local_shape_iff {before : List TriggerAction} {metadata : TriggerFunctionMetadata}
    (hfired : FiredLocally now bk s t before action metadata)
    (hoption : t.triggerOption = 0 ∨ t.triggerOption = 1 ∨ t.triggerOption = 2)
    (hplain : PlainAction content bk.bucket action)
    (hobjects : HasObjects env s (actionObjects content bk.bucket action))
    (hcache : CacheOf (actionObjects content bk.bucket action) s.keyValMap)
    (hsession : Plain sessionId) (appName : Name) (clientAddr : Address) :
    functionArguments env.readShm
          (callMessage (triggeredCall sessionId appName metadata) clientAddr) =
        some (some ((documented t.triggerOption
          (actionObjects content bk.bucket action)).map .ofString)) ↔
      KeepsShape t.triggerOption (Cached s.keyValMap bk.bucket action)
          (actionObjects content bk.bucket action) ∧
        (Cached s.keyValMap bk.bucket action ∨
          ∀ earlier ∈ before, ¬ Cached s.keyValMap bk.bucket earlier) := by
  rw [hfired.metadata_eq]
  by_cases hcached : Cached s.keyValMap bk.bucket action
  · have hread := @functionArguments_plain_values env.readShm (triggeredCall sessionId appName
      { funcName := action.function
        funcArgs := (actionObjects content bk.bucket action).map StoredObject.value
        argFlag := 0 }) ⟨hsession, hplain.function, hplain.function_ne⟩ rfl hplain.plain_values
      clientAddr
    rw [actionMetadata, if_pos hcached, cached_values hcache hcached, hread]
    exact (by_value_shape_iff hoption hcached _).trans
      ⟨fun h => ⟨h, Or.inl hcached⟩, fun h => h.1⟩
  · have hne : actionObjects content bk.bucket action ≠ [] := not_cached_ne_nil hcached
    have hargs : ((objectNames bk.bucket action).flatMap fun name =>
        [name, Bytes.toDecimal (s.keyLenMap.getD name 0)]) =
          (actionObjects content bk.bucket action).flatMap StoredObject.nameAndSize := by
      rw [← map_name_actionObjects content]
      exact fullArgs_names hobjects
    rw [actionMetadata, if_neg hcached, hargs]
    by_cases hbefore : ∃ earlier ∈ before, Cached s.keyValMap bk.bucket earlier
    · -- the flag is 0 from the cached action on
      rw [if_pos hbefore, functionArguments_flag_zero
        ⟨hsession, hplain.function, hplain.function_ne⟩ rfl (fieldText_nameAndSize _) hplain.names]
      refine iff_of_false ?_ ?_
      · rw [Option.some_inj, Option.some_inj,
          (List.map_injective_iff.mpr ofString_injective).eq_iff]
        exact triples_ne_documented _ hne
      · rintro ⟨-, hcached' | hall⟩
        · exact hcached hcached'
        · obtain ⟨earlier, hmem, hearlier⟩ := hbefore
          exact hall earlier hmem hearlier
    · rw [if_neg hbefore]
      have hshape := @by_name_shape_iff _ t.triggerOption hoption _ hcached hne env.readShm
        (triggeredCall sessionId appName
          { funcName := action.function
            funcArgs := (actionObjects content bk.bucket action).flatMap StoredObject.nameAndSize
            argFlag := t.triggerOption + 1 })
        ⟨hsession, hplain.function, hplain.function_ne⟩ rfl rfl hplain.names
        (fun o ho => (hobjects o ho).2) clientAddr
      exact hshape.trans ⟨fun h => ⟨h, Or.inr fun earlier hmem hearlier =>
        hbefore ⟨earlier, hmem, hearlier⟩⟩, fun h => h.1⟩

theorem functionArguments_plain_batch {appName function : Name} {values : List Bytes}
    (hsession : Plain sessionId) (hfunction : Plain function) (hne : function ≠ [])
    (hvalues : ∀ value ∈ values, Plain value ∧ value ≠ []) (clientAddr : Address) :
    functionArguments readShm (callMessage
        { sessionId, appName, funcName := function
          funcArgs := [values.flatMap fun value => value ++ kDelimiter], argFlag := 0 }
        clientAddr) = some (some (values.map .ofString)) := by
  by_cases hnil : values = []
  · have hempty : readFields (fieldText [[]]) = [] := by decide
    have hflag : (uint32OfInt (0 + 1)).toUInt8 - 1 = 0 := by decide
    rw [hnil, functionArguments_callMessage readShm ⟨hsession, hfunction, hne⟩, List.flatMap_nil,
      hempty, hflag]
    rfl
  · have hread := @functionArguments_plain_values readShm
      { sessionId, appName, funcName := function, funcArgs := values, argFlag := 0 }
      ⟨hsession, hfunction, hne⟩ rfl hvalues clientAddr
    rw [← hread]
    symm
    apply functionArguments_batch
    · exact Or.inl rfl
    · rfl
    · rfl
    · rfl
    · exact hvalues
    · exact hnil
    · rfl

theorem remote_shape_iff {call : FunctionCall}
    (hfired : FiredRemotely randR bk respAddress t c action call)
    (hoption : t.triggerOption = 0 ∨ t.triggerOption = 1 ∨ t.triggerOption = 2)
    (hplain : PlainAction content bk.bucket action)
    (hcache : CacheOf (actionObjects content bk.bucket action) c.bucketKeyValMap)
    {request : FunctionRequest} (hrequest : request ∈ call.requests) {node node' : SchedState}
    (hsession : Plain call.sessionId) (hobjects : 0 < argFlagOf request.arguments →
      HasObjects env node (actionObjects content bk.bucket action))
    (hstep : RequestStep env call.sessionId request node node')
    (hscheduled : node'.submitted = node.submitted ++ [scheduled]) (clientAddr : Address) :
    functionArguments env.readShm (callMessage scheduled clientAddr) =
        some (some ((documented t.triggerOption
          (actionObjects content bk.bucket action)).map .ofString)) ↔
      KeepsShape t.triggerOption (Cached c.bucketKeyValMap bk.bucket action)
        (actionObjects content bk.bucket action) := by
  obtain ⟨args, hargs, hrequests, -⟩ := hfired.arguments
  rw [hrequests, List.mem_singleton] at hrequest
  obtain ⟨appName, rfl⟩ := hstep.call_eq hscheduled
  by_cases hcached : Cached c.bucketKeyValMap bk.bucket action
  · rw [actionArguments_of_cached hcached, cached_values hcache hcached] at hargs
    rw [← Option.some.inj hargs] at hrequest
    rw [hrequest, requestCall_batch, functionArguments_plain_batch hsession hplain.function
      hplain.function_ne hplain.plain_values]
    exact by_value_shape_iff hoption hcached _
  · have hne : actionObjects content bk.bucket action ≠ [] := not_cached_ne_nil hcached
    obtain ⟨hnames, hflags⟩ := actionArguments_by_name hcached hargs
    have hbodies : request.arguments.map Argument.body =
        (actionObjects content bk.bucket action).map StoredObject.name := by
      rw [hrequest, map_name_actionObjects]
      exact hnames
    have hflags : ∀ arg ∈ request.arguments,
        arg.argFlag = (uint32OfInt (t.triggerOption + 1)).toNat := by
      rw [hrequest]
      exact hflags
    have hnonempty : request.arguments ≠ [] := by
      intro hnil
      rw [hnil] at hbodies
      exact hne (List.map_eq_nil_iff.mp hbodies.symm)
    have hint : ((uint32OfInt (t.triggerOption + 1)).toNat : Int) = t.triggerOption + 1 := by
      rcases hoption with hoption | hoption | hoption <;> rw [hoption] <;> rfl
    have hobjects := hobjects (by rw [argFlagOf_eq hflags, if_neg hnonempty]; omega)
    rw [requestCall_objects hobjects (by omega) hint hnonempty hbodies hflags, hrequest]
    exact by_name_shape_iff hoption hcached hne
      ⟨hsession, hplain.function, hplain.function_ne⟩ rfl rfl hplain.names
      (fun o ho => (hobjects o ho).2) clientAddr

/-- A function gets the arguments that `trigger_option_` promises exactly as far as
`KeepsShape` says, from a scheduler as well as from the coordinator. -/
theorem documented_shape_iff {bk : BucketKey} {t : Trigger}
    (hoption : t.triggerOption = 0 ∨ t.triggerOption = 1 ∨ t.triggerOption = 2)
    (hplain : PlainAction content bk.bucket action) :
    (∀ env s now before metadata, FiredLocally now bk s t before action metadata →
      HasObjects env s (actionObjects content bk.bucket action) →
      CacheOf (actionObjects content bk.bucket action) s.keyValMap →
      ∀ sessionId, Plain sessionId → ∀ appName clientAddr,
        (functionArguments env.readShm
            (callMessage (triggeredCall sessionId appName metadata) clientAddr) =
          some (some ((documented t.triggerOption
            (actionObjects content bk.bucket action)).map .ofString)) ↔
        KeepsShape t.triggerOption (Cached s.keyValMap bk.bucket action)
            (actionObjects content bk.bucket action) ∧
          (Cached s.keyValMap bk.bucket action ∨
            ∀ earlier ∈ before, ¬ Cached s.keyValMap bk.bucket earlier))) ∧
    (∀ randR respAddress c call, FiredRemotely randR bk respAddress t c action call →
      CacheOf (actionObjects content bk.bucket action) c.bucketKeyValMap →
      Plain call.sessionId → ∀ request ∈ call.requests, ∀ env node node' scheduled,
        (0 < argFlagOf request.arguments →
          HasObjects env node (actionObjects content bk.bucket action)) →
        RequestStep env call.sessionId request node node' →
        node'.submitted = node.submitted ++ [scheduled] → ∀ clientAddr,
          (functionArguments env.readShm (callMessage scheduled clientAddr) =
            some (some ((documented t.triggerOption
              (actionObjects content bk.bucket action)).map .ofString)) ↔
          KeepsShape t.triggerOption (Cached c.bucketKeyValMap bk.bucket action)
            (actionObjects content bk.bucket action))) := by
  constructor
  · intro env s now before metadata hfired hobjects hcache sessionId hsession
    exact local_shape_iff hfired hoption hplain hobjects hcache hsession
  · intro randR respAddress c call hfired hcache hsession request hrequest env node node'
      scheduled hobjects hstep hscheduled
    exact remote_shape_iff hfired hoption hplain hcache hrequest hsession hobjects hstep hscheduled

end Shape

/-! ### The two objects again -/

def pairContent (name : Bytes) : Value := pairValues.getD name []

def pairEnv : SchedEnv := { rejectingEnv with readShm := fun name _ => pairContent name }

def pairStore (option : Int) (values : Map Bytes Value) : SchedState := { pairNode with
  bucketTriggersMap :=
    Shared.empty.push (Bytes.lit "b") { pairTrigger with triggerOption := option }
  keyValMap := values
  keyLenMap := fun name => (pairValues name).map List.length }

theorem documented_shape_iff_pair :
    FiredLocally 0 pairObject (pairStore 0 pairValues) pairTrigger [] pairAction
      ⟨Bytes.lit "f", [Bytes.lit "v", Bytes.lit "w"], 0⟩ ∧
    functionArguments pairEnv.readShm (callMessage (triggeredCall (Bytes.lit "s") []
        ⟨Bytes.lit "f", [Bytes.lit "v", Bytes.lit "w"], 0⟩) []) =
      some (some ((documented 0 (actionObjects pairContent (Bytes.lit "b") pairAction)).map
        .ofString)) ∧
    FiredRemotely (fun seed => (0, seed)) pairObject [] pairTrigger pairCoordinator pairAction
      pairCall ∧
    ∃ request ∈ pairCall.requests, ∃ node' scheduled,
      RequestStep pairEnv pairCall.sessionId request (SchedState.new 0 0) node' ∧
      node'.submitted = (SchedState.new 0 0).submitted ++ [scheduled] ∧
      functionArguments pairEnv.readShm (callMessage scheduled []) =
        some (some ((documented 0 (actionObjects pairContent (Bytes.lit "b") pairAction)).map
          .ofString)) := by
  have hnames : ∀ o ∈ actionObjects pairContent pairObject.bucket pairAction, o.PlainNames := by
    intro o ho
    rcases List.mem_pair.mp ho with rfl | rfl <;> exact ⟨by decide, by decide⟩
  have hplain : PlainAction pairContent pairObject.bucket pairAction :=
    ⟨by decide, by decide, hnames, by decide +kernel⟩
  obtain ⟨hscheduler, hcoordinator⟩ :=
    documented_shape_iff (t := pairTrigger) (Or.inl rfl) hplain
  have hlocal : FiredLocally 0 pairObject (pairStore 0 pairValues) pairTrigger [] pairAction
      ⟨Bytes.lit "f", [Bytes.lit "v", Bytes.lit "w"], 0⟩ := ⟨[], [], [], rfl, rfl, rfl⟩
  have hremote : FiredRemotely (fun seed => (0, seed)) pairObject [] pairTrigger pairCoordinator
      pairAction pairCall := ⟨[], _, _, rfl⟩
  have hcache : CacheOf (actionObjects pairContent pairObject.bucket pairAction) pairValues := by
    intro o ho value hvalue
    obtain ⟨sessionKey, -, rfl⟩ := List.mem_map.mp ho
    exact (Map.getD_of_some [] hvalue).symm
  have hstored : HasObjects pairEnv (pairStore 0 pairValues)
      (actionObjects pairContent pairObject.bucket pairAction) := by
    intro o ho
    rcases List.mem_pair.mp ho with rfl | rfl <;> exact ⟨rfl, rfl⟩
  have hcached : Cached pairValues pairObject.bucket pairAction := by
    intro name hname
    rcases List.mem_pair.mp hname with rfl | rfl <;> decide
  have hstep : ∃ node' scheduled, RequestStep pairEnv pairCall.sessionId
      { name := Bytes.lit "f", arguments := [{ body := Bytes.lit "v|w|", argFlag := 0 }] }
      (SchedState.new 0 0) node' ∧
        node'.submitted = (SchedState.new 0 0).submitted ++ [scheduled] :=
    ⟨_, _, @RequestStep.arrives _ _ _ _ _ 0 [] rfl, rfl⟩
  obtain ⟨node', scheduled, hstep, hscheduled⟩ := hstep
  refine ⟨hlocal, ?_, hremote, _, List.mem_singleton.mpr rfl, node', scheduled, hstep, hscheduled,
    ?_⟩
  · exact (hscheduler _ _ _ _ _ hlocal hstored hcache _ (by decide) _ _).mpr
      ⟨Or.inr (Or.inl ⟨hcached, Or.inl rfl⟩), Or.inl hcached⟩
  · exact (hcoordinator _ _ _ _ hremote hcache (by decide) _ (List.mem_singleton.mpr rfl) _ _ _ _
      (fun hflag => absurd hflag (by decide)) hstep hscheduled _).mpr
        (Or.inr (Or.inl ⟨hcached, Or.inl rfl⟩))

/-- With option 1 the function gets the two values alone if they are small, and key names
with values if they are not; with option 2 and large values there are no arguments at all. -/
theorem small_values_lose_names :
    FiredLocally 0 pairObject (pairStore 1 pairValues) { pairTrigger with triggerOption := 1 } []
      pairAction ⟨Bytes.lit "f", [Bytes.lit "v", Bytes.lit "w"], 0⟩ ∧
    functionArguments pairEnv.readShm (callMessage (triggeredCall (Bytes.lit "s") []
        ⟨Bytes.lit "f", [Bytes.lit "v", Bytes.lit "w"], 0⟩) []) =
      some (some [.ofString (Bytes.lit "v"), .ofString (Bytes.lit "w")]) ∧
    (∃ args, FiredLocally 0 pairObject (pairStore 1 Map.empty)
        { pairTrigger with triggerOption := 1 } [] pairAction ⟨Bytes.lit "f", args, 2⟩ ∧
      functionArguments pairEnv.readShm (callMessage (triggeredCall (Bytes.lit "s") []
          ⟨Bytes.lit "f", args, 2⟩) []) =
        some (some [.ofString (Bytes.lit "ks"), .ofString (Bytes.lit "v"),
          .ofString (Bytes.lit "ls"), .ofString (Bytes.lit "w")])) ∧
    ∃ args, FiredLocally 0 pairObject (pairStore 2 Map.empty)
        { pairTrigger with triggerOption := 2 } [] pairAction ⟨Bytes.lit "f", args, 3⟩ ∧
      functionArguments pairEnv.readShm (callMessage (triggeredCall (Bytes.lit "s") []
          ⟨Bytes.lit "f", args, 3⟩) []) = none := by
  refine ⟨⟨[], [], [], rfl, rfl, rfl⟩, by decide +kernel,
    ⟨[Bytes.lit "b|ks", Bytes.lit "1", Bytes.lit "b|ls", Bytes.lit "1"],
      ⟨[], [], [], rfl, rfl, rfl⟩, by decide +kernel⟩,
    ⟨[Bytes.lit "b|ks", Bytes.lit "1", Bytes.lit "b|ls", Bytes.lit "1"],
      ⟨[], [], [], rfl, rfl, rfl⟩, by decide +kernel⟩⟩

end Pheromone.Cluster
