import Pheromone.Executor.Proofs.CallArguments
import Pheromone.Scheduler.Proofs.Accounting
import Pheromone.Scheduler.Proofs.CallRuns

/-!
# Where a call runs

A call on stored objects is sent to an executor of its node, which reads the objects from
shared memory, or it is forwarded to another node.  `forward_call_via_helper` passes the
names of the objects on, or their values when they are small together.  By name the
function gets the same arguments; by value it does when the message that carries the
values can be read back.
-/

namespace Pheromone.Cluster

open Lib Common Scheduler Executor

variable {request : FunctionRequest} {sessionId : Session}
variable {s' : SchedState} {objects : List StoredObject} {appName : Name}

structure ObjectCall where
  call : SchedCall
  objects : List StoredObject
  addressed : Addressed call
  funcArgs : call.funcArgs = objects.flatMap StoredObject.triple ∨
    call.funcArgs = objects.flatMap StoredObject.nameAndSize
  names : ∀ o ∈ objects, o.PlainNames
  /-- The executor reads the sizes with `stoi`. -/
  sizes : ∀ o ∈ objects, o.value.length < 2 ^ 31

def HasObjects (env : SchedEnv) (s : SchedState) (objects : List StoredObject) : Prop :=
  ∀ o ∈ objects, s.keyLenMap o.name = some o.value.length ∧
    env.readShm o.name o.value.length = o.value

/-- A step in which a node can hand the call of a request to `schedule_func_call`: the
request arrives, or an object arrives that the call waits for. -/
inductive RequestStep (env : SchedEnv) (sessionId : Session) (request : FunctionRequest)
    (s s' : SchedState) : Prop
  | arrives {now : Stamp} {appName : Name}
      (h : callRequest env now appName sessionId s request = some s')
  | resumes {now : Stamp} {key : Bytes} {callId : UInt32} {inflight : InflightFuncArgs}
      (hwaits : s.callIdInflightArgsMap callId = some inflight)
      (hof : inflight.describe = describeRequest sessionId request)
      (h : resumeCall env now key s callId = some s')

/-- On every node, which has the objects if the request is by name, the function of the
request gets `args`. -/
def RunsWith (request : FunctionRequest) (objects : List StoredObject)
    (args : List FunctionArgument) : Prop :=
  ∀ env sessionId s s' call, Plain sessionId →
    (0 < argFlagOf request.arguments → HasObjects env s objects) →
    RequestStep env sessionId request s s' → s'.submitted = s.submitted ++ [call] →
    ∀ clientAddr, functionArguments env.readShm (callMessage call clientAddr) = some (some args)

def totalSize (calls : List ObjectCall) : Nat :=
  ((calls.flatMap ObjectCall.objects).map fun o => o.value.length).sum

/-- The sizes can be added, and calls that are packed can be read back. -/
structure Transferable (calls : List ObjectCall) : Prop where
  total : totalSize calls < 2 ^ 31
  packed : totalSize calls < forwardDataPackingThreshold.toNat →
    ∀ c ∈ calls, Packable c.objects

/-! ## The local node -/

theorem ObjectCall.fieldText_funcArgs (c : ObjectCall) :
    fieldText c.call.funcArgs = fieldText (c.objects.flatMap StoredObject.triple) := by
  rcases c.funcArgs with h | h
  · rw [h]
  · rw [h, fieldText_nameAndSize]

theorem ObjectCall.readable (c : ObjectCall) {env : SchedEnv} {s : SchedState}
    (h : HasObjects env s c.objects) : Readable env.readShm c.objects := fun o ho =>
  ⟨c.sizes o ho, (h o ho).2⟩

theorem ObjectCall.runs_locally (c : ObjectCall) {env : SchedEnv} {s : SchedState}
    (hflag : c.call.argFlag = 1 ∨ c.call.argFlag = 2) (h : HasObjects env s c.objects)
    (clientAddr : Address) :
    functionArguments env.readShm (callMessage c.call clientAddr) =
      some (some (argumentsOf c.call.argFlag c.objects)) :=
  functionArguments_objects c.addressed hflag c.fieldText_funcArgs c.names (c.readable h) clientAddr

/-! ## The other node -/

def requestCall (sessionId : Session) (request : FunctionRequest) (appName : Name)
    (keyLenMap : Map Bytes Nat) : SchedCall :=
  InflightFuncArgs.readyCall
    { funcName := request.name
      sessionId
      keyArgs := request.arguments.map Argument.body
      inflightArgs := ∅
      argFlag := argFlagOf request.arguments } appName keyLenMap

theorem inflightArgsOf_unchanged (env : SchedEnv) (sessionId : Session)
    (request : FunctionRequest) (s : SchedState) :
    (inflightArgsOf env sessionId request s).1.keyLenMap = s.keyLenMap ∧
      (inflightArgsOf env sessionId request s).1.submitted = s.submitted := by
  have hstep : ∀ (acc : SchedState × Finset Bytes) arg,
      ((checkKeyArg env acc arg).1.keyLenMap, (checkKeyArg env acc arg).1.submitted) =
        (acc.1.keyLenMap, acc.1.submitted) := by
    intro acc arg
    cases hlen : acc.1.keyLenMap arg with
    | some size => rw [checkKeyArg_present env hlen]
    | none =>
      obtain ⟨id, reqs, hreqs, heq⟩ := checkKeyArg_missing env hlen
      have hnone : reqs.flatMap SchedOut.submitted = [] := by
        refine List.flatMap_eq_nil_iff.mpr fun out hout => ?_
        obtain ⟨thread, rfl, -⟩ := hreqs out hout
        rfl
      rw [heq]
      simp [SchedState.submitted, hnone]
  unfold inflightArgsOf
  by_cases hflag : 0 < argFlagOf request.arguments
  · simp only [if_pos hflag]
    exact Prod.mk.inj (foldl_unchanged
      (fun acc : SchedState × Finset Bytes => (acc.1.keyLenMap, acc.1.submitted)) hstep _ _)
  · simp only [if_neg hflag, and_self]

theorem readyCall_describe {inflight : InflightFuncArgs}
    (hof : inflight.describe = describeRequest sessionId request) (appName : Name)
    (keyLenMap : Map Bytes Nat) :
    inflight.readyCall appName keyLenMap = requestCall sessionId request appName keyLenMap := by
  simp only [InflightFuncArgs.describe, describeRequest, Prod.mk.injEq] at hof
  obtain ⟨hname, hsession, hkeys, hflag⟩ := hof
  simp only [requestCall, InflightFuncArgs.readyCall, hname, hsession, hkeys, hflag]

theorem RequestStep.call_eq {env : SchedEnv} {s : SchedState} {call : SchedCall}
    (h : RequestStep env sessionId request s s') (hcall : s'.submitted = s.submitted ++ [call]) :
    ∃ appName, call = requestCall sessionId request appName s.keyLenMap := by
  cases h with
  | @arrives now appName h =>
    obtain ⟨hlen, hsubmitted⟩ := inflightArgsOf_unchanged env sessionId request s
    obtain ⟨s₁, hs₁, rfl⟩ := Option.map_eq_some_iff.mp h
    have hemit : ((inflightArgsOf env sessionId request s).1.emit
        (.arrived s.callId (inflightArgsOf env sessionId request s).2)).submitted =
          s.submitted := by
      rw [← hsubmitted]
      simp [SchedState.submitted, SchedState.emit, SchedOut.submitted]
    split at hs₁
    · refine ⟨appName, ?_⟩
      have hnew := submit_submitted hs₁
      rw [hemit] at hnew
      have heq := List.append_cancel_left (hcall.symm.trans hnew)
      rw [List.singleton_inj.mp heq, ← hlen]
      rfl
    · cases hs₁
      have hnil := List.append_cancel_left ((hcall.symm.trans hemit).trans
        (List.append_nil _).symm)
      cases hnil
  | @resumes now key callId inflight hwaits hof h =>
    unfold resumeCall at h
    simp only [Map.getD, hwaits, Option.getD_some] at h
    split at h
    · obtain ⟨s₁, hs₁, rfl⟩ := Option.map_eq_some_iff.mp h
      have hnew := submit_submitted hs₁
      have heq := List.append_cancel_left (hcall.symm.trans hnew)
      rw [List.singleton_inj.mp heq]
      exact ⟨_, readyCall_describe hof _ _⟩
    · cases h
      have hnil := List.append_cancel_left (hcall.symm.trans (List.append_nil _).symm)
      cases hnil

theorem argFlagOf_eq {args : List Argument} {n : Nat} (h : ∀ arg ∈ args, arg.argFlag = n) :
    argFlagOf args = if args = [] then 0 else n := by
  have hloop : ∀ flag, args.foldl
      (fun flag arg => if 0 < arg.argFlag then arg.argFlag else flag) flag =
        if args = [] ∨ n = 0 then flag else n := by
    induction args with
    | nil => simp
    | cons arg args ih =>
      intro flag
      rw [List.foldl_cons, ih fun a ha => h a (List.mem_cons_of_mem _ ha),
        h arg List.mem_cons_self]
      rcases Nat.eq_zero_or_pos n with rfl | hn
      · simp
      · simp [hn, hn.ne']
  rw [argFlagOf, hloop]
  by_cases hargs : args = []
  · simp [hargs]
  · rcases Nat.eq_zero_or_pos n with rfl | hn
    · simp
    · simp [hargs, hn.ne']

theorem argFlagOf_valueRequest (name : Name) (values : List Bytes) :
    argFlagOf (valueRequest 0 name values).arguments = 0 := by
  have hzero : ∀ arg ∈ (valueRequest 0 name values).arguments, arg.argFlag = 0 := by
    intro arg harg
    obtain ⟨value, _, rfl⟩ := List.mem_map.mp harg
    rfl
  rw [argFlagOf_eq hzero]
  exact ite_self 0

theorem requestCall_valueRequest (sessionId : Session) (name : Name) (values : List Bytes)
    (appName : Name) (keyLenMap : Map Bytes Nat) :
    requestCall sessionId (valueRequest 0 name values) appName keyLenMap =
      { sessionId, appName, funcName := name, funcArgs := values, argFlag := 0 } := by
  have hbodies : (valueRequest 0 name values).arguments.map Argument.body = values :=
    List.map_map.trans (List.map_id values)
  simp only [requestCall, InflightFuncArgs.readyCall, argFlagOf_valueRequest, hbodies]
  rfl

def rejectingEnv : SchedEnv where
  ip := []
  ioThreadCount := 1
  ioThreadCount_pos := Nat.one_pos
  schedDelayTime := 0
  sharedExecutor := false
  rejectExtraReq := true
  randR := fun seed => (0, seed)
  readShm := fun _ _ => []

theorem scheduleFuncCall_dropped {env : SchedEnv} (hdelay : env.schedDelayTime = 0)
    (hreject : env.rejectExtraReq = true) (now : Stamp) (call : SchedCall) {s : SchedState}
    (hstatus : s.executorStatusMap = UMap.empty) : scheduleFuncCall env now call s = some s := by
  have hnone : pickExecutor env call.funcName s = none := by
    refine pickExecutor_none_iff.mpr ?_
    rintro ⟨id, status, hfind, -⟩
    rw [hstatus] at hfind
    cases hfind
  unfold scheduleFuncCall
  simp only [hnone, hdelay, hreject, lt_irrefl, if_false, if_true, Option.pure_def]

theorem exists_requestStep (name : Name) (values : List Bytes) :
    ∃ env s s' call, RequestStep env [] (valueRequest 0 name values) s s' ∧
      s'.submitted = s.submitted ++ [call] := by
  have hstep : ∃ s' call, callRequest rejectingEnv 0 [] [] (SchedState.new 0 0)
      (valueRequest 0 name values) = some s' ∧
        s'.submitted = (SchedState.new 0 0).submitted ++ [call] := by
    unfold callRequest inflightArgsOf
    simp only [argFlagOf_valueRequest, lt_irrefl, if_false, if_true]
    unfold submit
    rw [scheduleFuncCall_dropped rfl rfl _ _ rfl]
    exact ⟨_, _, rfl, rfl⟩
  obtain ⟨s', call, hs', hsubmitted⟩ := hstep
  exact ⟨rejectingEnv, _, s', call, .arrives hs', hsubmitted⟩

theorem runsWith_values_iff {name : Name} (hname : Plain name) (hne : name ≠ [])
    (values : List Bytes) (objects : List StoredObject) :
    RunsWith (valueRequest 0 name values) objects (values.map .ofString) ↔
      (∀ value ∈ values, Plain value) ∧ values.getLast? ≠ some [] := by
  constructor
  · intro hruns
    have hsession : Plain [] := by decide
    obtain ⟨env, s, s', call, hstep, hsubmitted⟩ := exists_requestStep name values
    have hargs := hruns env [] s s' call hsession
      (fun hflag => absurd hflag (by rw [argFlagOf_valueRequest]; exact lt_irrefl 0))
      hstep hsubmitted []
    obtain ⟨appName, rfl⟩ := hstep.call_eq hsubmitted
    rw [requestCall_valueRequest] at hargs
    exact (functionArguments_values_iff ⟨hsession, hname, hne⟩ rfl []).mp hargs
  · intro hplain env sessionId s s' call hsession _ hstep hsubmitted clientAddr
    obtain ⟨appName, rfl⟩ := hstep.call_eq hsubmitted
    rw [requestCall_valueRequest]
    exact (functionArguments_values_iff ⟨hsession, hname, hne⟩ rfl clientAddr).mpr hplain

theorem fullArgs_names {env : SchedEnv} {s : SchedState} (h : HasObjects env s objects) :
    fullArgs s.keyLenMap (objects.map StoredObject.name) =
      objects.flatMap StoredObject.nameAndSize := by
  rw [fullArgs, List.flatMap_map]
  refine List.flatMap_congr fun o ho => ?_
  rw [Map.getD, (h o ho).1]
  rfl

theorem requestCall_objects {env : SchedEnv} {s : SchedState} (h : HasObjects env s objects)
    {argFlag : Int} (hpos : 0 < argFlag) (hint : ((uint32OfInt argFlag).toNat : Int) = argFlag)
    (hne : request.arguments ≠ [])
    (hbodies : request.arguments.map Argument.body = objects.map StoredObject.name)
    (hflags : ∀ arg ∈ request.arguments, arg.argFlag = (uint32OfInt argFlag).toNat)
    (sessionId : Session) (appName : Name) :
    requestCall sessionId request appName s.keyLenMap =
      { sessionId, appName, funcName := request.name
        funcArgs := objects.flatMap StoredObject.nameAndSize, argFlag } := by
  have hof := argFlagOf_eq hflags
  rw [if_neg hne] at hof
  simp only [requestCall, InflightFuncArgs.readyCall, hof, hint, hbodies, if_pos hpos,
    fullArgs_names h]

theorem runsWith_objects {argFlag : Int} (hflag : argFlag = 1 ∨ argFlag = 2)
    (hnames : ∀ o ∈ objects, o.PlainNames) (hsizes : ∀ o ∈ objects, o.value.length < 2 ^ 31)
    (hname : Plain request.name) (hne : request.name ≠ [])
    (hbodies : request.arguments.map Argument.body = objects.map StoredObject.name)
    (hflags : ∀ arg ∈ request.arguments, arg.argFlag = (uint32OfInt argFlag).toNat) :
    RunsWith request objects (argumentsOf argFlag objects) := by
  intro env sessionId s s' call hsession hobjects hstep hsubmitted clientAddr
  obtain ⟨appName, rfl⟩ := hstep.call_eq hsubmitted
  by_cases hnil : request.arguments = []
  · -- without objects the request has no flag either
    have hobjects : objects = [] := by simpa [hnil] using hbodies.symm
    have hcall : requestCall sessionId request appName s.keyLenMap =
        { sessionId, appName, funcName := request.name, funcArgs := [], argFlag := 0 } := by
      simp only [requestCall, InflightFuncArgs.readyCall, hnil]
      rfl
    rw [hcall, hobjects]
    exact (functionArguments_values_iff ⟨hsession, hname, hne⟩ rfl clientAddr).mpr (by simp)
  · have hpos : (0 : Int) < argFlag := by omega
    have hint : ((uint32OfInt argFlag).toNat : Int) = argFlag := by
      rcases hflag with rfl | rfl <;> rfl
    have hof := argFlagOf_eq hflags
    rw [if_neg hnil] at hof
    have hobjects := hobjects (by rw [hof]; omega)
    rw [requestCall_objects hobjects hpos hint hnil hbodies hflags]
    exact functionArguments_objects ⟨hsession, hname, hne⟩ hflag (fieldText_nameAndSize objects)
      hnames (fun o ho => ⟨hsizes o ho, (hobjects o ho).2⟩) clientAddr

/-! ## Forwarding -/

theorem mapM_triples (calls : List ObjectCall) :
    (calls.map fun c => c.objects.flatMap StoredObject.triple).mapM triples =
      some (calls.map fun c => c.objects.map StoredObject.parts) := by
  induction calls with
  | nil => rfl
  | cons c calls ih =>
    rw [List.map_cons, List.mapM_cons, triples_flatMap, ih]
    rfl

theorem foldlM_sizes {sizes : List Nat} (hsizes : ∀ size ∈ sizes, size < 2 ^ 31) (total : Nat)
    (htotal : total < 2 ^ 31) :
    (sizes.map Bytes.toDecimal).foldlM
        (fun total size => (Bytes.stoi size).bind (addInt total)) (total : Int) =
      if total + sizes.sum < 2 ^ 31 then some ((total + sizes.sum : Nat) : Int) else none := by
  induction sizes generalizing total with
  | nil =>
    rw [List.map_nil, List.sum_nil, Nat.add_zero, if_pos htotal]
    rfl
  | cons size sizes ih =>
    have hadd : (Bytes.stoi (Bytes.toDecimal size)).bind (addInt total) =
        if total + size < 2 ^ 31 then some ((total + size : Nat) : Int) else none := by
      rw [Bytes.stoi_toDecimal, if_pos (hsizes size List.mem_cons_self), Option.bind_some, addInt]
      by_cases hfits : total + size < 2 ^ 31
      · rw [if_pos hfits, if_pos (by omega)]
        rfl
      · rw [if_neg hfits, if_neg (by omega)]
    rw [List.map_cons, List.foldlM_cons, hadd, List.sum_cons]
    by_cases hfits : total + size < 2 ^ 31
    · rw [if_pos hfits, Option.bind_eq_bind, Option.bind_some,
        ih (fun size hsize => hsizes size (List.mem_cons_of_mem _ hsize)) _ hfits, Nat.add_assoc]
    · rw [if_neg hfits, if_neg (by omega)]
      rfl

theorem totalDataSize_eq (calls : List ObjectCall) :
    totalDataSize (calls.map fun c => c.objects.map StoredObject.parts) =
      if totalSize calls < 2 ^ 31 then some (totalSize calls : Int) else none := by
  have hflatten : (calls.map fun c => c.objects.map StoredObject.parts).flatten =
      (calls.flatMap ObjectCall.objects).map StoredObject.parts := by
    rw [List.map_flatMap]
    rfl
  have hsizes : ∀ size ∈ (calls.flatMap ObjectCall.objects).map fun o => o.value.length,
      size < 2 ^ 31 := by
    intro size hsize
    obtain ⟨o, ho, rfl⟩ := List.mem_map.mp hsize
    obtain ⟨c, _, ho⟩ := List.mem_flatMap.mp ho
    exact c.sizes o ho
  have hsum := foldlM_sizes hsizes 0 (by decide)
  rw [Nat.zero_add, List.map_map, List.foldlM_map] at hsum
  rw [totalDataSize, hflatten, List.foldlM_map]
  exact hsum

theorem realData_parts {env : SchedEnv} {s : SchedState} {argFlag : Int}
    (hflag : argFlag = 1 ∨ argFlag = 2) (h : HasObjects env s objects) :
    (objects.map StoredObject.parts).flatMap (realData env argFlag s.keyLenMap) =
      objects.flatMap (StoredObject.values argFlag) := by
  rw [List.flatMap_map]
  refine List.flatMap_congr fun o ho => ?_
  obtain ⟨hlen, hread⟩ := h o ho
  have hdata : env.readShm o.name (s.keyLenMap.getD o.name 0) = o.value := by
    rw [Map.getD, hlen]
    exact hread
  rcases hflag with rfl | rfl
  · simp [realData, hdata, StoredObject.values]
  · simp [realData, hdata, StoredObject.values]

structure RequestByName (argFlag : Int) (c : ObjectCall) (request : FunctionRequest) : Prop where
  name : request.name = c.call.funcName
  bodies : request.arguments.map Argument.body = c.objects.map StoredObject.name
  flags : ∀ arg ∈ request.arguments, arg.argFlag = (uint32OfInt argFlag).toNat

theorem keyArguments_spec (env : SchedEnv) (argFlag : Int) (objects : List StoredObject)
    (s : SchedState) :
    let args := (keyArguments env argFlag (objects.map StoredObject.parts) s).2
    args.map Argument.body = objects.map StoredObject.name ∧
      ∀ arg ∈ args, arg.argFlag = (uint32OfInt argFlag).toNat := by
  induction objects generalizing s with
  | nil => simp [keyArguments]
  | cons o objects ih =>
    obtain ⟨hbodies, hflags⟩ := ih (s.getDataServerAddr env false).1
    refine ⟨congrArg (List.cons o.name) hbodies, fun arg harg => ?_⟩
    rcases List.mem_cons.mp harg with rfl | harg
    · rfl
    · exact hflags arg harg

theorem keyRequests_spec (env : SchedEnv) (argFlag : Int) (calls : List ObjectCall)
    (s : SchedState) :
    List.Forall₂ (RequestByName argFlag) calls
      (keyRequests env argFlag
        (calls.map fun c => (c.call.funcName, c.objects.map StoredObject.parts)) s).2 := by
  induction calls generalizing s with
  | nil => exact .nil
  | cons c calls ih =>
    obtain ⟨hbodies, hflags⟩ := keyArguments_spec env argFlag c.objects s
    exact .cons ⟨rfl, hbodies, hflags⟩ (ih _)

section Forward

variable {env : SchedEnv} {s : SchedState} {argFlag : Int} {calls : List ObjectCall}

/-- `forward_call_via_helper` for calls on objects. -/
def forwardObjects (env : SchedEnv) (sessionId : Session) (appName : Name)
    (calls : List ObjectCall) (argFlag : Int) (s : SchedState) : Option SchedState :=
  forwardCallViaHelper env sessionId appName (calls.map ObjectCall.call)
    (calls.map fun c => c.objects.flatMap StoredObject.triple) argFlag s

def ForwardedAs (s s' : SchedState) (calls : List ObjectCall) (requests : List FunctionRequest) :
    Prop :=
  ∃ address message, s'.sent = s.sent ++ [.forward (calls.map ObjectCall.call) address message] ∧
    message.requests = requests

theorem ForwardedAs.unique {s : SchedState} {calls : List ObjectCall}
    {requests requests' : List FunctionRequest} (h : ForwardedAs s s' calls requests)
    (h' : ForwardedAs s s' calls requests') : requests = requests' := by
  obtain ⟨address, message, hsent, rfl⟩ := h
  obtain ⟨address', message', hsent', rfl⟩ := h'
  have hout := List.append_cancel_left (hsent.symm.trans hsent')
  rw [List.singleton_inj, SchedOut.forward.injEq] at hout
  rw [hout.2.2]

theorem uint32OfInt_lt_iff {n : Nat} (h : n < 2 ^ 31) (bound : UInt32) :
    uint32OfInt n < bound ↔ n < bound.toNat := by
  have hmod : ((n : Int) % 2 ^ 32).toNat = n := by omega
  rw [UInt32.lt_iff_toNat_lt, uint32OfInt, hmod, UInt32.toNat_ofNat', Nat.mod_eq_of_lt (by omega)]

theorem forwardObjects_eq (hflag : argFlag = 1 ∨ argFlag = 2) (env : SchedEnv)
    (sessionId : Session) (appName : Name) (calls : List ObjectCall) (s : SchedState) :
    forwardObjects env sessionId appName calls argFlag s =
      (if totalSize calls < 2 ^ 31 then some (totalSize calls : Int) else none).bind fun total =>
        if uint32OfInt total < forwardDataPackingThreshold then
          sendForward env sessionId appName (calls.map ObjectCall.call)
            (calls.map fun c => valueRequest 0 c.call.funcName
              ((c.objects.map StoredObject.parts).flatMap (realData env argFlag s.keyLenMap)))
            { s with
              keyLenMap := (calls.map fun c => c.objects.map StoredObject.parts).flatten.foldl
                (fun m arg => m.touch (objectName arg) 0) s.keyLenMap }
        else
          let result := keyRequests env argFlag
            (calls.map fun c => (c.call.funcName, c.objects.map StoredObject.parts)) s
          sendForward env sessionId appName (calls.map ObjectCall.call) result.2
            result.1 := by
  have hpos : 0 < argFlag := by omega
  unfold forwardObjects forwardCallViaHelper
  simp only [if_pos hpos, mapM_triples, totalDataSize_eq, Option.bind_eq_bind, Option.bind_some,
    List.map_map, List.zip_map']
  rfl

theorem forwardObjects_isSome (hflag : argFlag = 1 ∨ argFlag = 2) (env : SchedEnv)
    (sessionId : Session) :
    (forwardObjects env sessionId appName calls argFlag s).isSome ↔
      s.Announced appName ∧ totalSize calls < 2 ^ 31 := by
  rw [forwardObjects_eq hflag]
  by_cases htotal : totalSize calls < 2 ^ 31
  · obtain ⟨id, hid⟩ := keyRequests_state env argFlag
      (calls.map fun c => (c.call.funcName, c.objects.map StoredObject.parts)) s
    rw [if_pos htotal, Option.bind_some, and_iff_left htotal]
    split
    · exact sendForward_isSome ..
    · rw [sendForward_isSome, hid]
      rfl
  · rw [if_neg htotal]
    exact iff_of_false (by simp) fun h => htotal h.2

theorem ForwardedAs.of_sendForward {env : SchedEnv} {s t : SchedState}
    {requests : List FunctionRequest}
    (h : sendForward env sessionId appName (calls.map ObjectCall.call) requests s = some s')
    (hsent : s.sent = t.sent) : ForwardedAs t s' calls requests := by
  obtain ⟨address, rfl⟩ := sendForward_spec h
  exact ⟨address, _, congrArg (· ++ _) hsent, rfl⟩

theorem forwardObjects_packed (hflag : argFlag = 1 ∨ argFlag = 2)
    (hobjects : ∀ c ∈ calls, HasObjects env s c.objects)
    (hpack : totalSize calls < forwardDataPackingThreshold.toNat)
    (h : forwardObjects env sessionId appName calls argFlag s = some s') :
    ForwardedAs s s' calls (calls.map fun c =>
      valueRequest 0 c.call.funcName (c.objects.flatMap (StoredObject.values argFlag))) := by
  have htotal := ((forwardObjects_isSome hflag ..).mp (Option.isSome_of_eq_some h)).2
  rw [forwardObjects_eq hflag, if_pos htotal, Option.bind_some,
    if_pos ((uint32OfInt_lt_iff htotal _).mpr hpack)] at h
  have hvalues : (calls.map fun c => valueRequest 0 c.call.funcName
      ((c.objects.map StoredObject.parts).flatMap (realData env argFlag s.keyLenMap))) =
      calls.map fun c =>
        valueRequest 0 c.call.funcName (c.objects.flatMap (StoredObject.values argFlag)) :=
    List.map_congr_left fun c hc => by rw [realData_parts hflag (hobjects c hc)]
  rw [hvalues] at h
  exact .of_sendForward h rfl

theorem forwardObjects_by_name (hflag : argFlag = 1 ∨ argFlag = 2)
    (hpack : ¬ totalSize calls < forwardDataPackingThreshold.toNat)
    (h : forwardObjects env sessionId appName calls argFlag s = some s') :
    ∃ requests, ForwardedAs s s' calls requests ∧
      List.Forall₂ (RequestByName argFlag) calls requests := by
  have htotal := ((forwardObjects_isSome hflag ..).mp (Option.isSome_of_eq_some h)).2
  rw [forwardObjects_eq hflag, if_pos htotal, Option.bind_some,
    if_neg fun h => hpack ((uint32OfInt_lt_iff htotal _).mp h)] at h
  obtain ⟨id, hid⟩ := keyRequests_state env argFlag
    (calls.map fun c => (c.call.funcName, c.objects.map StoredObject.parts)) s
  exact ⟨_, .of_sendForward h (by rw [hid]), keyRequests_spec env argFlag calls s⟩

end Forward

/-! ## Both -/

/-- A call on objects hands them to its function on the node itself.  Forwarded, it does
on every node that has them, exactly when the node was told of the application, the sizes can
be added and the values, if they are packed, have neither delimiter nor NUL and do not end
with an empty one. -/
theorem forwarded_arguments_iff {argFlag : Int} (hflag : argFlag = 1 ∨ argFlag = 2)
    {env : SchedEnv} {s : SchedState} {calls : List ObjectCall}
    (hflags : ∀ c ∈ calls, c.call.argFlag = argFlag)
    (hobjects : ∀ c ∈ calls, HasObjects env s c.objects) (sessionId : Session) (appName : Name) :
    (∀ c ∈ calls, ∀ clientAddr,
      functionArguments env.readShm (callMessage c.call clientAddr) =
        some (some (argumentsOf argFlag c.objects))) ∧
    ((∃ s' requests, forwardObjects env sessionId appName calls argFlag s = some s' ∧
        ForwardedAs s s' calls requests ∧
        List.Forall₂ (fun c request => RunsWith request c.objects (argumentsOf argFlag c.objects))
          calls requests) ↔
      s.Announced appName ∧ Transferable calls) := by
  refine ⟨fun c hc clientAddr => ?_, ?_, ?_⟩
  · have hlocal := c.runs_locally (hflags c hc ▸ hflag) (hobjects c hc) clientAddr
    rwa [hflags c hc] at hlocal
  · rintro ⟨s', requests, hforward, hrequests, hruns⟩
    obtain ⟨happ, htotal⟩ :=
      (forwardObjects_isSome hflag ..).mp (Option.isSome_of_eq_some hforward)
    refine ⟨happ, htotal, fun hpack c hc => ?_⟩
    have hvalues := forwardObjects_packed hflag hobjects hpack hforward
    rw [hrequests.unique hvalues, List.forall₂_map_right_iff, List.forall₂_same] at hruns
    exact (packable_iff c.names).mpr
      ((runsWith_values_iff c.addressed.function c.addressed.function_ne _ _).mp (hruns c hc))
  · rintro ⟨happ, htotal, hpacked⟩
    obtain ⟨s', hs'⟩ := Option.isSome_iff_exists.mp
      ((forwardObjects_isSome hflag env sessionId).mpr ⟨happ, htotal⟩)
    by_cases hpack : totalSize calls < forwardDataPackingThreshold.toNat
    · have hrequests := forwardObjects_packed hflag hobjects hpack hs'
      refine ⟨s', _, hs', hrequests, List.forall₂_map_right_iff.mpr (List.forall₂_same.mpr ?_)⟩
      intro c hc
      exact (runsWith_values_iff c.addressed.function c.addressed.function_ne _ _).mpr
        ((packable_iff c.names).mp (hpacked hpack c hc))
    · obtain ⟨requests, hrequests, hnames⟩ := forwardObjects_by_name hflag hpack hs'
      refine ⟨s', requests, hs', hrequests, hnames.imp fun c request h => ?_⟩
      exact runsWith_objects hflag c.names c.sizes (h.name ▸ c.addressed.function)
        (h.name ▸ c.addressed.function_ne) h.bodies h.flags

def nodeWith (value : Value) : SchedEnv :=
  { rejectingEnv with rejectExtraReq := false, readShm := fun _ _ => value }

def smallObject (value : Value) : StoredObject where
  bucket := Bytes.lit "b"
  sessionKey := Bytes.lit "k0123456789abcdef"
  value := value

def stateWith (value : Value) (executors : Nat) : SchedState :=
  { SchedState.new 0 executors with
    keyLenMap := Map.empty.set (smallObject value).name value.length
    appCoordMap := Map.empty.set (Bytes.lit "app") { ip := Bytes.lit "10.0.0.9", tid := 0 } }

def smallCall (value : Value) : SchedCall where
  sessionId := Bytes.lit "0123456789abcdef"
  appName := Bytes.lit "app"
  funcName := Bytes.lit "f"
  funcArgs := (smallObject value).triple
  argFlag := 1

def plainObjectCall : ObjectCall where
  call := smallCall (Bytes.lit "ab")
  objects := [smallObject (Bytes.lit "ab")]
  addressed := ⟨by decide, by decide, by decide⟩
  funcArgs := Or.inl (by decide)
  names := fun o ho => by
    rw [List.mem_singleton.mp ho]
    exact ⟨by decide, by decide⟩
  sizes := fun o ho => by
    rw [List.mem_singleton.mp ho]
    decide

theorem forwarded_arguments_plain_value :
    ∃ s' requests, forwardObjects (nodeWith (Bytes.lit "ab")) [] (Bytes.lit "app")
        [plainObjectCall] 1 (stateWith (Bytes.lit "ab") 0) = some s' ∧
      ForwardedAs (stateWith (Bytes.lit "ab") 0) s' [plainObjectCall] requests ∧
      List.Forall₂ (fun c request => RunsWith request c.objects (argumentsOf 1 c.objects))
        [plainObjectCall] requests := by
  have hobjects : HasObjects (nodeWith (Bytes.lit "ab")) (stateWith (Bytes.lit "ab") 0)
      plainObjectCall.objects := by
    intro o ho
    rw [List.mem_singleton.mp ho]
    exact ⟨by decide, by decide⟩
  refine (forwarded_arguments_iff (Or.inl rfl) (fun c hc => ?_) (fun c hc => ?_) []
    (Bytes.lit "app")).2.mpr ⟨rfl, by decide, fun _ c hc => ⟨fun o ho => ?_, fun o ho => ?_⟩⟩
  · rw [List.mem_singleton.mp hc]
    rfl
  · rw [List.mem_singleton.mp hc]
    exact hobjects
  · rw [List.mem_singleton.mp hc] at ho
    rw [List.mem_singleton.mp ho]
    decide
  · rw [List.mem_singleton.mp hc] at ho
    cases ho
    decide

def handedOver (env : SchedEnv) (s : SchedState) : List (Option (Option (List FunctionArgument))) :=
  s.sent.filterMap fun out =>
    match out with
    | .toExecutor _ _ message => some (functionArguments env.readShm message)
    | _ => none

def ranLocally (value : Value) : Option (List (Option (Option (List FunctionArgument)))) :=
  (scheduleFuncCall (nodeWith value) 0 (smallCall value)
    (executorAvailable 0 (stateWith value 1)) : Option SchedState).map
      (handedOver (nodeWith value))

def ranRemotely (value : Value) : Option (List (Option (Option (List FunctionArgument)))) := do
  let s ← scheduleFuncCall (nodeWith value) 0 (smallCall value) (stateWith value 0)
  let message ← (s.sent.filterMap fun out =>
    match out with
    | .forward _ _ message => some message
    | _ => none).head?
  let s' ← run (nodeStep (nodeWith [])) (SchedState.new 0 1)
    [.executor 0 [1, 7], .call 0 message]
  pure (handedOver (nodeWith []) s')

/-- Small objects with a delimiter, with a NUL, and without any byte. -/
theorem packed_arguments_differ :
    (ranLocally (Bytes.lit "a|b") = some [some (some [.ofString (Bytes.lit "a|b")])] ∧
      ranRemotely (Bytes.lit "a|b") =
        some [some (some [.ofString (Bytes.lit "a"), .ofString (Bytes.lit "b")])]) ∧
    (ranLocally [97, 0, 98] = some [some (some [.ofString [97, 0, 98]])] ∧
      ranRemotely [97, 0, 98] = some [some (some [.ofString [97]])]) ∧
    ranLocally [] = some [some (some [.ofString []])] ∧
      ranRemotely [] = some [some (some [])] := by
  refine ⟨⟨?_, ?_⟩, ⟨?_, ?_⟩, ?_, ?_⟩ <;> decide +kernel

end Pheromone.Cluster
