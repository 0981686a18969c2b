import Mathlib.Data.List.TakeWhile
import Pheromone.Scheduler.Comm
import Pheromone.Lib.Transition

/-!
# What scheduling a call can change

One lemma for each function that `schedule_func_call` is made of, with the next
state written out: the other proofs about schedulers use these equations and do
not unfold the functions.
-/

namespace Pheromone.Scheduler

open Lib Common

variable {msg : UpdateCoordMsg} {argFlag : Int} {cold : Bool} {fuel : Nat} {message : Bytes}
  {reportEnd : Stamp} {seed : UInt32} {targets : USet Name}

variable {s s' : SchedState} {now stamp : Stamp} {id : ExecutorId} {appName funcName : Name}
  {K : DelayFunctionCall → Prop} {clock : Nat → Stamp}
  {entries : List (ExecutorId × ExecutorStatus)} {infos : SendInfos} {isWarm : ExecutorId → Bool}
  {key : Bytes} {packing : Packing} {sessionId : Session} {shared : Bool}

/-! ## Forwarding -/

theorem keyArguments_state (env : SchedEnv) (argFlag : Int)
    (args : List (Bytes × Bytes × Bytes)) (s : SchedState) :
    ∃ id, (keyArguments env argFlag args s).1 = { s with ioThreadId := id } := by
  induction args generalizing s with
  | nil => exact ⟨s.ioThreadId, rfl⟩
  | cons arg args ih =>
    obtain ⟨id, hid⟩ := ih (s.getDataServerAddr env false).1
    exact ⟨id, hid⟩

theorem keyRequests_state (env : SchedEnv) (argFlag : Int)
    (reqs : List (Name × List (Bytes × Bytes × Bytes))) (s : SchedState) :
    ∃ id, (keyRequests env argFlag reqs s).1 = { s with ioThreadId := id } := by
  induction reqs generalizing s with
  | nil => exact ⟨s.ioThreadId, rfl⟩
  | cons req reqs ih =>
    obtain ⟨name, args⟩ := req
    obtain ⟨id, hid⟩ := keyArguments_state env argFlag args s
    obtain ⟨id', hid'⟩ := ih (keyArguments env argFlag args s).1
    refine ⟨id', ?_⟩
    simp only [keyRequests]
    rw [hid', hid]

def forwardMessage (env : SchedEnv) (s : SchedState) (sessionId : Session) (appName : Name)
    (requests : List FunctionRequest) : FunctionCall :=
  { appName
    respAddress := s.clientAddr sessionId
    source := env.ip
    sessionId
    syncDataStatus := true
    requests }

/-- `m'` is `m` after some reads with `operator[]` of the names in `touched`. -/
def TouchedBy (touched : List Bytes) (m m' : Map Bytes Nat) : Prop :=
  m' = touched.foldl (fun m name => m.touch name 0) m

theorem sendForward_spec {env : SchedEnv} {calls : List SchedCall}
    {requests : List FunctionRequest}
    (h : sendForward env sessionId appName calls requests s = some s') :
    ∃ address, s' = { s with
      sessionClientAddrMap := s.sessionClientAddrMap.touch sessionId []
      sent := s.sent ++
        [.forward calls address (forwardMessage env s sessionId appName requests)] } := by
  obtain ⟨coord, _, rfl⟩ := Option.map_eq_some_iff.mp h
  exact ⟨_, rfl⟩

theorem forwardCallViaHelper_spec {env : SchedEnv} {calls : List SchedCall}
    {args : List (List Bytes)}
    (h : forwardCallViaHelper env sessionId appName calls args argFlag s = some s') :
    ∃ address requests touched keyLenMap id,
      TouchedBy touched s.keyLenMap keyLenMap ∧
      s' = { s with
        keyLenMap := keyLenMap
        ioThreadId := id
        sessionClientAddrMap := s.sessionClientAddrMap.touch sessionId []
        sent := s.sent ++
          [.forward calls address (forwardMessage env s sessionId appName requests)] } := by
  unfold forwardCallViaHelper at h
  simp only at h
  by_cases hflag : 0 < argFlag
  · rw [if_pos hflag] at h
    simp only [Option.bind_eq_bind, Option.bind_eq_some_iff] at h
    obtain ⟨triples, _, total, _, h⟩ := h
    by_cases hsmall : uint32OfInt total < forwardDataPackingThreshold
    · rw [if_pos hsmall] at h
      obtain ⟨_, rfl⟩ := sendForward_spec h
      refine ⟨_, _, triples.flatten.map objectName, _, s.ioThreadId, ?_, rfl⟩
      simp only [TouchedBy, List.foldl_map]
    · rw [if_neg hsmall] at h
      obtain ⟨_, rfl⟩ := sendForward_spec h
      obtain ⟨id, hid⟩ := keyRequests_state env argFlag
        ((calls.map SchedCall.funcName).zip triples) s
      rw [hid]
      exact ⟨_, _, [], s.keyLenMap, id, rfl, rfl⟩
  · rw [if_neg hflag] at h
    obtain ⟨_, rfl⟩ := sendForward_spec h
    exact ⟨_, _, [], s.keyLenMap, s.ioThreadId, rfl, rfl⟩

/-- The arguments `args` can be read in threes, with decimal sizes. -/
def ReadsTriples (args : List Bytes) : Prop :=
  ∃ parts, triples args = some parts ∧ (totalDataSize [parts]).isSome

/-- The node was told of the application. -/
def SchedState.Announced (s : SchedState) (appName : Name) : Prop :=
  (s.appCoordMap appName).isSome

theorem sendForward_isSome (env : SchedEnv) (sessionId : Session) (calls : List SchedCall)
    (requests : List FunctionRequest) :
    (sendForward env sessionId appName calls requests s).isSome ↔ s.Announced appName := by
  unfold sendForward
  rw [Option.isSome_map]
  rfl

theorem forwardCallViaHelper_isSome (env : SchedEnv) (sessionId : Session)
    (calls : List SchedCall) {args : List Bytes} :
    (forwardCallViaHelper env sessionId appName calls [args] argFlag s).isSome ↔
      s.Announced appName ∧ (0 < argFlag → ReadsTriples args) := by
  unfold forwardCallViaHelper ReadsTriples
  simp only
  by_cases hflag : 0 < argFlag
  · rw [if_pos hflag]
    cases hparts : triples args with
    | none => simp [hflag, hparts]
    | some parts =>
      cases htotal : totalDataSize [parts] with
      | none => simp [hflag, hparts, htotal]
      | some total =>
        obtain ⟨id, hid⟩ := keyRequests_state env argFlag
          ((calls.map SchedCall.funcName).zip [parts]) s
        have hsent : ∀ requests t, t.appCoordMap = s.appCoordMap →
            ((sendForward env sessionId appName calls requests t).isSome ↔
              s.Announced appName) := by
          intro requests t ht
          rw [sendForward_isSome, SchedState.Announced, ht]
          rfl
        simp only [List.mapM_cons, List.mapM_nil, hparts, htotal, Option.pure_def,
          Option.bind_eq_bind, Option.bind_some, hflag, Option.some.injEq, exists_eq_left',
          Option.isSome_some, forall_const, and_true]
        split
        · exact hsent _ _ rfl
        · exact hsent _ _ (by rw [hid])
  · rw [if_neg hflag, sendForward_isSome]
    simp [hflag]

/-! ## Choosing an executor -/

def Usable (env : SchedEnv) (s : SchedState) (funcName : Name) : Prop :=
  ∃ id status, s.executorStatusMap.find? id = some status ∧
    ((status = .available ∧ id ∈ s.functionExecutorMap.getD funcName ∅) ∨
      status = .empty ∨ (env.sharedExecutor = true ∧ status = .available))

theorem selectExecutors_eq (shared : Bool) (isWarm : ExecutorId → Bool)
    (entries : List (ExecutorId × ExecutorStatus)) :
    selectExecutors shared isWarm entries =
      ((entries.find? fun e => e.2 = .available && isWarm e.1).map Prod.fst,
        ((entries.takeWhile fun e => !(e.2 = .available && isWarm e.1)).filter fun e =>
          e.2 = .empty || (shared && e.2 = .available)).map Prod.fst) := by
  induction entries with
  | nil => rfl
  | cons e entries ih =>
    unfold selectExecutors
    rw [ih, List.find?_cons, List.takeWhile_cons]
    cases (e.2 = .available && isWarm e.1 : Bool) with
    | true => rfl
    | false =>
      simp only [Bool.false_eq_true, if_false, Bool.not_false, if_true, List.filter_cons]
      split <;> rfl

theorem selectExecutors_warm (h : (selectExecutors shared isWarm entries).1 = some id) :
    (id, .available) ∈ entries ∧ isWarm id = true := by
  rw [selectExecutors_eq] at h
  obtain ⟨e, hfind, rfl⟩ := Option.map_eq_some_iff.mp h
  have hwarm := List.find?_some hfind
  simp only [Bool.and_eq_true, decide_eq_true_eq] at hwarm
  rw [← hwarm.1]
  exact ⟨List.mem_of_find?_eq_some hfind, hwarm.2⟩

theorem selectExecutors_cold (h : id ∈ (selectExecutors shared isWarm entries).2) :
    (id, .empty) ∈ entries ∨ (shared = true ∧ (id, .available) ∈ entries) := by
  rw [selectExecutors_eq] at h
  obtain ⟨e, he, rfl⟩ := List.mem_map.mp h
  obtain ⟨hseen, hcold⟩ := List.mem_filter.mp he
  have hmem := (List.takeWhile_sublist _).subset hseen
  simp only [Bool.or_eq_true, Bool.and_eq_true, decide_eq_true_eq] at hcold
  rcases hcold with hempty | ⟨hshared, havailable⟩
  · exact Or.inl (hempty ▸ hmem)
  · exact Or.inr ⟨hshared, havailable ▸ hmem⟩

theorem selectExecutors_none (hwarm : (selectExecutors shared isWarm entries).1 = none)
    (hcold : (selectExecutors shared isWarm entries).2 = []) {status : ExecutorStatus}
    (hmem : (id, status) ∈ entries) :
    ¬ (status = .available ∧ isWarm id = true) ∧ status ≠ .empty ∧
      ¬ (shared = true ∧ status = .available) := by
  rw [selectExecutors_eq] at hwarm hcold
  have hnone := List.find?_eq_none.mp (Option.map_eq_none_iff.mp hwarm)
  -- without a warm one the scan sees all the executors
  rw [List.takeWhile_eq_self_iff.mpr fun e he => by
    rw [Bool.eq_false_of_not_eq_true (hnone e he), Bool.not_false]] at hcold
  have hc := List.filter_eq_nil_iff.mp (List.map_eq_nil_iff.mp hcold) (id, status) hmem
  have hw := hnone (id, status) hmem
  simp only [Bool.and_eq_true, decide_eq_true_eq, Bool.or_eq_true] at hw hc
  exact ⟨hw, fun h => hc (Or.inl h), fun h => hc (Or.inr h)⟩

theorem pickExecutor_none_iff {env : SchedEnv} :
    pickExecutor env funcName s = none ↔ ¬ Usable env s funcName := by
  unfold pickExecutor
  simp only
  set result := selectExecutors env.sharedExecutor
    (fun id => decide (id ∈ s.functionExecutorMap.getD funcName ∅))
    s.executorStatusMap.entries with hresult
  cases hwarm : result.1 with
  | some id =>
    have hmem := selectExecutors_warm (hresult ▸ hwarm)
    simp only [reduceCtorEq, false_iff, not_not]
    exact ⟨id, .available, UMap.find?_eq_some_iff.mpr hmem.1,
      Or.inl ⟨rfl, by simpa using hmem.2⟩⟩
  | none =>
    by_cases hcold : result.2 = []
    · simp only [hcold, List.length_nil, List.getElem?_nil, Option.map_none, true_iff]
      rintro ⟨id, status, hfind, huse⟩
      obtain ⟨h₁, h₂, h₃⟩ := selectExecutors_none (hresult ▸ hwarm) (hresult ▸ hcold)
        (UMap.find?_eq_some_iff.mp hfind)
      rcases huse with ⟨havail, hmem⟩ | hempty | hshared
      · exact h₁ ⟨havail, by simpa using hmem⟩
      · exact h₂ hempty
      · exact h₃ hshared
    · have hlt : (env.randR s.ramSeed).1 % result.2.length < result.2.length :=
        Nat.mod_lt _ (List.length_pos_iff.mpr hcold)
      simp only [List.getElem?_eq_getElem hlt, Option.map_some, reduceCtorEq, false_iff,
        not_not]
      obtain ⟨id, hid⟩ := List.exists_mem_of_ne_nil _ hcold
      rw [hresult] at hid
      rcases selectExecutors_cold hid with hmem | hmem
      · exact ⟨_, .empty, UMap.find?_eq_some_iff.mpr hmem, Or.inr (Or.inl rfl)⟩
      · exact ⟨_, .available, UMap.find?_eq_some_iff.mpr hmem.2, Or.inr (Or.inr ⟨hmem.1, rfl⟩)⟩

theorem pickExecutor_spec {env : SchedEnv}
    (h : pickExecutor env funcName s = some (id, seed, cold)) :
    (cold = false ∧ s.executorStatusMap.find? id = some .available ∧
        id ∈ s.functionExecutorMap.getD funcName ∅) ∨
      (cold = true ∧ (s.executorStatusMap.find? id = some .empty ∨
        (env.sharedExecutor = true ∧ s.executorStatusMap.find? id = some .available))) := by
  unfold pickExecutor at h
  simp only at h
  split at h
  next id' hwarm =>
    cases h
    obtain ⟨hmem, hisWarm⟩ := selectExecutors_warm hwarm
    exact Or.inl ⟨rfl, UMap.find?_eq_some_iff.mpr hmem, of_decide_eq_true hisWarm⟩
  · obtain ⟨id', hid, heq⟩ := Option.map_eq_some_iff.mp h
    cases heq
    refine Or.inr ⟨rfl, (selectExecutors_cold (List.mem_of_getElem? hid)).imp ?_ ?_⟩
    · exact UMap.find?_eq_some_iff.mpr
    · exact And.imp_right UMap.find?_eq_some_iff.mpr

theorem pickExecutor_avail {env : SchedEnv}
    (h : pickExecutor env funcName s = some (id, seed, cold)) :
    ∃ status, s.executorStatusMap.find? id = some status ∧ isAvail status = true := by
  rcases pickExecutor_spec h with ⟨_, hfind, _⟩ | ⟨_, hfind | ⟨_, hfind⟩⟩
  · exact ⟨_, hfind, rfl⟩
  · exact ⟨_, hfind, rfl⟩
  · exact ⟨_, hfind, rfl⟩

/-- The status map is iterated in the order of `m` from now on. -/
def SchedState.rehash (m : UMap ExecutorId ExecutorStatus) (s : SchedState) : SchedState :=
  if m.entries.Perm s.executorStatusMap.entries then { s with executorStatusMap := m } else s

theorem rehash_eq (m : UMap ExecutorId ExecutorStatus) (s : SchedState) :
    ∃ m', s.rehash m = { s with executorStatusMap := m' } ∧
      ∀ id, m'.find? id = s.executorStatusMap.find? id := by
  unfold SchedState.rehash
  by_cases hperm : m.entries.Perm s.executorStatusMap.entries
  · rw [if_pos hperm]
    exact ⟨m, rfl, UMap.find?_eq_of_perm hperm⟩
  · rw [if_neg hperm]
    exact ⟨s.executorStatusMap, rfl, fun _ => rfl⟩

/-! ## Sending -/

theorem recordRerun_foldl (now : Stamp) (call : SchedCall) (reruns : List RerunTriggerTimeout)
    (s : SchedState) :
    ∃ triggers queue,
      (∀ {γ : Type} (g : Trigger → γ) (bucket : Bucket),
        (∀ t, g (t.notifySourceFunc call.funcName call.sessionId call.funcArgs call.argFlag) =
          g t) →
        (triggers.list bucket).map g = (s.triggersOf bucket).map g) ∧
      reruns.foldl (recordRerun now call) s =
        { s with bucketTriggersMap := triggers, rerunCheckQueue := queue } := by
  induction reruns generalizing s with
  | nil => exact ⟨s.bucketTriggersMap, s.rerunCheckQueue, fun _ _ _ => rfl, rfl⟩
  | cons rerun reruns ih =>
    obtain ⟨triggers, queue, hlist, heq⟩ := ih (recordRerun now call s rerun)
    refine ⟨triggers, queue, fun g bucket hg => ?_, heq⟩
    rw [hlist g bucket hg]
    exact Shared.list_modify_map _ _ _ _ g hg

theorem sendToExecutor_spec (now : Stamp) (call : SchedCall) (executor : ExecutorId)
    (seed : UInt32) (cold : Bool) (s : SchedState) :
    ∃ triggers queue functionExecutorMap,
      (∀ {γ : Type} (g : Trigger → γ) (bucket : Bucket),
        (∀ t, g (t.notifySourceFunc call.funcName call.sessionId call.funcArgs call.argFlag) =
          g t) →
        (triggers.list bucket).map g = (s.triggersOf bucket).map g) ∧
      sendToExecutor now call executor seed cold s =
        { s with
          ramSeed := seed
          functionExecutorMap := functionExecutorMap
          sessionClientAddrMap := s.sessionClientAddrMap.touch call.sessionId []
          sent := s.sent ++
            [.toExecutor executor call (callMessage call (s.clientAddr call.sessionId))]
          executorStatusMap := s.executorStatusMap.set executor .await
          bucketTriggersMap := triggers
          rerunCheckQueue := queue } := by
  unfold sendToExecutor
  simp only
  obtain ⟨triggers, queue, hlist, heq⟩ := recordRerun_foldl now call
    (s.funcTriggerTimeoutMap.getD call.funcName [])
    { s with
      ramSeed := seed
      functionExecutorMap :=
        if cold then s.functionExecutorMap.set call.funcName
          (insert executor (s.functionExecutorMap.getD call.funcName ∅))
        else s.functionExecutorMap
      sessionClientAddrMap := s.sessionClientAddrMap.touch call.sessionId []
      sent := s.sent ++
        [.toExecutor executor call (callMessage call (s.clientAddr call.sessionId))]
      executorStatusMap := s.executorStatusMap.set executor .await }
  exact ⟨triggers, queue, _, hlist, heq⟩

theorem sendToExecutor_functions (now : Stamp) (call : SchedCall) (executor : ExecutorId)
    (seed : UInt32) (cold : Bool) (s : SchedState) :
    (sendToExecutor now call executor seed cold s).functionExecutorMap =
      if cold then s.functionExecutorMap.set call.funcName
        (insert executor (s.functionExecutorMap.getD call.funcName ∅))
      else s.functionExecutorMap :=
  foldl_unchanged (f := recordRerun now call) SchedState.functionExecutorMap (fun _ _ => rfl) _ _

/-- The three things `schedule_func_call` does with a call, besides dropping it
when it may reject. -/
theorem scheduleFuncCall_cases {env : SchedEnv} {call : SchedCall}
    (h : scheduleFuncCall env now call s = some s') :
    (∃ executor seed cold, pickExecutor env call.funcName s = some (executor, seed, cold) ∧
        s' = sendToExecutor now call executor seed cold s) ∨
      (¬ Usable env s call.funcName ∧ 0 < env.schedDelayTime ∧
        s' = { s with
          delayCallQueue := s.delayCallQueue ++ [{ call, triggerTime := now }] }) ∨
      (¬ Usable env s call.funcName ∧ env.schedDelayTime = 0 ∧ env.rejectExtraReq = true ∧
        s' = s) ∨
      (¬ Usable env s call.funcName ∧ env.schedDelayTime = 0 ∧ env.rejectExtraReq = false ∧
        ∃ args, forwardArgs call = some args ∧
          forwardCallViaHelper env call.sessionId call.appName [call] [args] call.argFlag s =
            some s') := by
  unfold scheduleFuncCall at h
  split at h
  · rename_i executor seed cold hpick
    exact Or.inl ⟨executor, seed, cold, hpick, (Option.some.inj h).symm⟩
  · rename_i hpick
    have hnot := pickExecutor_none_iff.mp hpick
    by_cases hdelay : 0 < env.schedDelayTime
    · rw [if_pos hdelay] at h
      exact Or.inr (Or.inl ⟨hnot, hdelay, (Option.some.inj h).symm⟩)
    · rw [if_neg hdelay] at h
      have hzero : env.schedDelayTime = 0 := by omega
      by_cases hreject : env.rejectExtraReq = true
      · rw [if_pos hreject] at h
        exact Or.inr (Or.inr (Or.inl ⟨hnot, hzero, hreject, (Option.some.inj h).symm⟩))
      · rw [if_neg hreject] at h
        obtain ⟨args, hargs, hforward⟩ := Option.bind_eq_some_iff.mp h
        exact Or.inr (Or.inr (Or.inr
          ⟨hnot, hzero, by simpa using hreject, args, hargs, hforward⟩))

/-! ## Notifications -/

theorem getRequestId_state (env : SchedEnv) (s : SchedState) :
    ∃ rid, (getRequestId env s).1 = { s with rid := rid } :=
  ⟨_, rfl⟩

theorem getDataServerAddr_spec (env : SchedEnv) (exclude : Bool) (s : SchedState) :
    ∃ id, s.getDataServerAddr env exclude =
      ({ s with ioThreadId := id }, tcpAddress env.ip (id + dataAccessServerPort)) :=
  ⟨_, rfl⟩

def notifyRequest (requestId : Bytes) (bk : BucketKey) (activeTriggers : List Name)
    (respAddress dataAddress : Address) (payload : Value) : KeyNotifyRequest :=
  { requestId
    responseAddress := respAddress
    activeTriggerNames := activeTriggers
    addresses := [
      { bucket := bk.bucket, key := bk.key, session := bk.session, ips := [dataAddress]
        payload }] }

theorem notifyPut_spec (env : SchedEnv) (bk : BucketKey) (activeTriggers : List Name)
    (respAddress : Address) (payload : Value) (s : SchedState) :
    (s.bucketCoordMap bk.bucket = none ∧
        notifyPut env bk activeTriggers respAddress payload s = s) ∨
      ∃ coord rid id requestId, s.bucketCoordMap bk.bucket = some coord ∧
        notifyPut env bk activeTriggers respAddress payload s = { s with
          rid := rid
          ioThreadId := id
          sent := s.sent ++ [.notify coord.notifyHandlerConnectAddress
            (notifyRequest requestId bk activeTriggers respAddress
              (tcpAddress env.ip (id + dataAccessServerPort)) payload)] } := by
  unfold notifyPut
  cases hcoord : s.bucketCoordMap bk.bucket with
  | none => exact Or.inl ⟨rfl, rfl⟩
  | some coord =>
    obtain ⟨rid, hrid⟩ := getRequestId_state env s
    obtain ⟨id, hid⟩ := getDataServerAddr_spec env true { s with rid := rid }
    refine Or.inr ⟨coord, rid, id, (getRequestId env s).2, rfl, ?_⟩
    simp only [hrid, hid]
    rfl

theorem notifyPut_state (env : SchedEnv) (bk : BucketKey) (activeTriggers : List Name)
    (respAddress : Address) (payload : Value) (s : SchedState) :
    ∃ rid id outs, notifyPut env bk activeTriggers respAddress payload s = { s with
        rid := rid, ioThreadId := id, sent := s.sent ++ outs } ∧
      ∀ out ∈ outs, ∃ address msg, out = .notify address msg := by
  rcases notifyPut_spec env bk activeTriggers respAddress payload s with ⟨_, heq⟩ |
    ⟨coord, rid, id, requestId, _, heq⟩
  · refine ⟨s.rid, s.ioThreadId, [], ?_, fun _ hout => absurd hout List.not_mem_nil⟩
    rw [heq, List.append_nil]
  · exact ⟨rid, id, _, heq, fun out hout => ⟨_, _, List.mem_singleton.mp hout⟩⟩

/-! ## Messages from executors -/

theorem set_present {m : Map Bytes Nat} (name : Bytes) (n : Nat) (key : Bytes)
    (h : ∃ size, m key = some size) : ∃ size, m.set name n key = some size := by
  by_cases heq : key = name
  · exact ⟨n, by rw [heq, Map.set_self]⟩
  · rw [Map.set_of_ne _ _ heq]
    exact h

theorem storeObject_spec (h : storeObject packing infos s = some s') :
    ∃ m values, s' = { s with keyLenMap := m, keyValMap := values } ∧
      ∀ key, (∃ size, s.keyLenMap key = some size) → ∃ size, m key = some size := by
  cases packing with
  | packed =>
    cases h
    exact ⟨_, _, rfl, set_present _ _⟩
  | sharedMemory =>
    obtain ⟨size, _, rfl⟩ := Option.map_eq_some_iff.mp h
    exact ⟨_, s.keyValMap, rfl, set_present _ _⟩
  | other =>
    cases h
    exact ⟨s.keyLenMap, s.keyValMap, rfl, fun _ hkey => hkey⟩

theorem ioThread_state (env : SchedEnv) (s : SchedState) :
    ∃ id, (s.ioThread env).1 = { s with ioThreadId := id } := by
  unfold SchedState.ioThread
  split
  · exact ⟨_, rfl⟩
  · exact ⟨s.ioThreadId, rfl⟩

theorem sendEphemeral_cases {env : SchedEnv} (h : sendEphemeral env now packing infos s = some s') :
    ∃ s₁, storeObject packing infos s = some s₁ ∧
      let appName := s₁.funcAppMap.getD infos.srcFunction []
      let deps := (s₁.appInfoMap.getD appName {}).directDeps infos.srcFunction
      ((∃ targets, deps = some targets ∧
          invokeDirectly env now packing infos appName targets s₁ = some s') ∨
        (deps = none ∧ infos.bucket ≠ bucketNameDirectInvoc ∧
          putObject env now packing infos s₁ = some s') ∨
        (deps = none ∧ infos.bucket = bucketNameDirectInvoc ∧ s' = s₁)) := by
  obtain ⟨s₁, hs₁, h⟩ := Option.bind_eq_some_iff.mp h
  refine ⟨s₁, hs₁, ?_⟩
  simp only at h
  split at h
  next targets hdeps => exact Or.inl ⟨targets, hdeps, h⟩
  next hdeps =>
    split at h
    next hbucket => exact Or.inr (Or.inl ⟨hdeps, hbucket, h⟩)
    next hbucket =>
      exact Or.inr (Or.inr ⟨hdeps, not_not.mp hbucket, (Option.some.inj h).symm⟩)

theorem invokeDirectly_cases {env : SchedEnv}
    (h : invokeDirectly env now packing infos appName targets s = some s') :
    batchForward env now infos.sessionId appName targets.elems (directArgs packing infos) s =
        some s' ∨
      (∃ call, call.sessionId = infos.sessionId ∧ submit env now none call s = some s') ∨
      s' = s := by
  unfold invokeDirectly at h
  simp only at h
  split at h
  · exact Or.inl h
  · split at h
    · exact Or.inr (Or.inl ⟨_, rfl, h⟩)
    · exact Or.inr (Or.inr (Option.some.inj h).symm)

theorem batchForward_preserves {env : SchedEnv} {Q : SchedState → Prop}
    (hsubmit : ∀ call s s', call.sessionId = sessionId → submit env now none call s = some s' →
      Q s → Q s') (hforward : ∀ calls args argFlag s s',
      forwardCallViaHelper env sessionId appName calls args argFlag s = some s' → Q s → Q s')
    {targets : List Name} {args : List Bytes × Int}
    (h : batchForward env now sessionId appName targets args s = some s') (hs : Q s) : Q s' := by
  have hlocal : ∀ {n : Nat} {s' : SchedState}, ((targets.map fun funcName =>
      ({ sessionId, appName, funcName, funcArgs := args.1, argFlag := args.2 } :
        SchedCall)).take n).foldlM (fun s call => submit env now none call s) s = some s' →
      Q s' := by
    intro n s' hfold
    refine foldlM_preserves (fun s call hmem s' hstep hs => ?_) hfold hs
    obtain ⟨funcName, -, rfl⟩ := List.mem_map.mp (List.mem_of_mem_take hmem)
    exact hsubmit _ s s' rfl hstep hs
  unfold batchForward at h
  simp only at h
  split at h
  · obtain ⟨s₁, hs₁, h⟩ := Option.bind_eq_some_iff.mp h
    split at h
    · cases h
      exact hlocal hs₁
    · exact hforward _ _ _ s₁ s' h (hlocal hs₁)
  · exact hlocal h

section Objects

variable {env : SchedEnv} {Q : SchedState → Prop}

theorem invokeDirectly_preserves (hsubmit : ∀ call s s', call.sessionId = infos.sessionId →
      submit env now none call s = some s' → Q s → Q s') (hforward : ∀ calls args argFlag s s',
      forwardCallViaHelper env infos.sessionId appName calls args argFlag s = some s' → Q s → Q s')
    (h : invokeDirectly env now packing infos appName targets s = some s') (hs : Q s) : Q s' := by
  rcases invokeDirectly_cases h with hbatch | ⟨call, hcall, hcalled⟩ | rfl
  · exact batchForward_preserves hsubmit hforward hbatch hs
  · exact hsubmit call s s' hcall hcalled hs
  · exact hs

theorem checkTrigger_preserves
    (hsubmit : ∀ call s s', call.sessionId = sessionId → submit env now none call s = some s' →
      Q s → Q s')
    {bk : BucketKey} {result : SchedState × List Name}
    (h : checkTrigger env now bk sessionId s = some result)
    (hs : Q (checkObjectArrival now bk s).1) : Q result.1 := by
  obtain ⟨s', hs', rfl⟩ := Option.map_eq_some_iff.mp h
  exact foldlM_preserves (fun _ _ _ _ hstep hs => hsubmit _ _ _ rfl hstep hs) hs' hs

theorem putObject_preserves
    (hsubmit : ∀ call s s', call.sessionId = infos.sessionId →
      submit env now none call s = some s' → Q s → Q s')
    (hnotify : ∀ active payload s, Q s →
      Q (notifyPut env infos.bucketKey active
        (s.clientAddr infos.sessionId) payload (s.touchClientAddr infos.sessionId)))
    (hcallId : ∀ callId s, Q s → Q { s with callId := callId })
    (h : putObject env now packing infos s = some s')
    (hs : Q (checkObjectArrival now infos.bucketKey s).1) :
    Q s' := by
  obtain ⟨result, hresult, rfl⟩ := Option.map_eq_some_iff.mp h
  have hcalls : Q result.1 := checkTrigger_preserves hsubmit hresult hs
  cases packing with
  | packed | sharedMemory => exact hcallId _ _ (hnotify _ _ _ hcalls)
  | other => exact hcallId _ _ hcalls

theorem sendEphemeral_preserves
    (hstore : ∀ s₁, storeObject packing infos s = some s₁ → Q s₁)
    (hsubmit : ∀ call s s', call.sessionId = infos.sessionId →
      submit env now none call s = some s' → Q s → Q s')
    (hforward : ∀ appName calls args argFlag s s',
      forwardCallViaHelper env infos.sessionId appName calls args argFlag s = some s' → Q s → Q s')
    (harrival : ∀ bk s, Q s → Q (checkObjectArrival now bk s).1)
    (hnotify : ∀ active payload s, Q s →
      Q (notifyPut env infos.bucketKey active
        (s.clientAddr infos.sessionId) payload (s.touchClientAddr infos.sessionId)))
    (hcallId : ∀ callId s, Q s → Q { s with callId := callId })
    (h : sendEphemeral env now packing infos s = some s') : Q s' := by
  obtain ⟨s₁, hs₁, hcases⟩ := sendEphemeral_cases h
  have hstored : Q s₁ := hstore s₁ hs₁
  rcases hcases with ⟨targets, _, hdirect⟩ | ⟨_, _, hput⟩ | ⟨_, _, rfl⟩
  · exact invokeDirectly_preserves hsubmit (hforward _) hdirect hstored
  · exact putObject_preserves hsubmit hnotify hcallId hput (harrival _ _ hstored)
  · exact hstored

end Objects

theorem executorMessage_cases {env : SchedEnv} (h : executorMessage env now message s = some s') :
    (∃ address store reqId len rest, message = address :: 1 :: store :: reqId :: len :: rest ∧
        getRequest env (address - 1) (store == 1) reqId (rest.take len.toNat) s = some s') ∨
      (∃ address reqId packingByte params infos,
        message = address :: 2 :: reqId :: packingByte :: params ∧
        SendInfos.parse params = some infos ∧
        sendEphemeral env now (Packing.ofByte packingByte) infos s = some s') ∨
      (∃ address reqId packingByte params infos,
        message = address :: 3 :: reqId :: packingByte :: params ∧
        SendInfos.parse params = some infos ∧
        sendToStore env (address - 1) reqId (Packing.ofByte packingByte) infos s = some s') ∨
      (∃ packing infos, sendToClient env packing infos s = some s') ∨
      (∃ address fields, message = address :: 6 :: fields ∧
        s' = executorBusy (address - 1) s) ∨
      (∃ address fields, message = address :: 7 :: fields ∧
        s' = executorAvailable (address - 1) s) ∨ s' = s := by
  have unchanged {P₁ P₂ P₃ P₄ P₅ P₆ : Prop} (h : some s = some s') :
      P₁ ∨ P₂ ∨ P₃ ∨ P₄ ∨ P₅ ∨ P₆ ∨ s' = s := by
    right; right; right; right; right; right
    exact (Option.some.inj h).symm
  unfold executorMessage at h
  split at h
  next address type fields =>
    simp only at h
    split at h
    next htype =>
      subst htype
      split at h
      · exact Or.inl ⟨_, _, _, _, _, rfl, h⟩
      · cases h
    · split at h
      · split at h
        · split at h
          · exact unchanged h
          next infos hparse =>
            split at h
            next htype =>
              subst htype
              exact Or.inr (Or.inl ⟨_, _, _, _, infos, rfl, hparse, h⟩)
            · split at h
              next htype =>
                subst htype
                exact Or.inr (Or.inr (Or.inl ⟨_, _, _, _, infos, rfl, hparse, h⟩))
              · exact Or.inr (Or.inr (Or.inr (Or.inl ⟨_, _, h⟩)))
        · cases h
      · split at h
        next htype =>
          subst htype
          right; right; right; right; left
          exact ⟨_, _, rfl, (Option.some.inj h).symm⟩
        · split at h
          next htype =>
            subst htype
            right; right; right; right; right; left
            exact ⟨_, _, rfl, (Option.some.inj h).symm⟩
          · exact unchanged h
  · cases h

def SchedOut.IsDispatch : SchedOut → Prop
  | .submit _ _ | .toExecutor _ _ _ | .forward _ _ _ => True
  | _ => False

/-- The outputs that ask for data or hand it out, and the marks of what waits for it. -/
def SchedOut.IsData : SchedOut → Prop
  | .arrived _ _ | .dataArrived _ | .response _ _ | .dataReq _ _ _ | .getKvs _ _ |
    .putKvs _ _ _ | .clientResponse _ _ _ => True
  | _ => False

theorem SchedOut.IsData.not_isDispatch {out : SchedOut} (h : out.IsData) : ¬ out.IsDispatch := by
  cases out with
  | submit | toExecutor | forward => exact h.elim
  | _ => exact id

theorem executorMessage_preserves {env : SchedEnv} {Q : SchedState → Prop}
    (hQ : ∀ s gets puts addrs statuses id outs, (∀ out ∈ outs, out.IsData) → Q s → Q { s with
      keyRemoteGetMap := gets, keyKsvPutMap := puts, sessionClientAddrMap := addrs
      executorStatusMap := statuses, ioThreadId := id, sent := s.sent ++ outs })
    (hsend : ∀ {address reqId packingByte params infos},
      message = address :: 2 :: reqId :: packingByte :: params →
      SendInfos.parse params = some infos →
      sendEphemeral env now (Packing.ofByte packingByte) infos s = some s' → Q s')
    (h : executorMessage env now message s = some s') (hs : Q s) : Q s' := by
  have hone : ∀ gets puts addrs statuses id out, out.IsData → Q { s with
      keyRemoteGetMap := gets, keyKsvPutMap := puts, sessionClientAddrMap := addrs
      executorStatusMap := statuses, ioThreadId := id, sent := s.sent ++ [out] } := by
    intro gets puts addrs statuses id out hout
    refine hQ s _ _ _ _ _ [out] (fun out' hout' => ?_) hs
    rw [List.mem_singleton.mp hout']
    exact hout
  have hsame : ∀ puts statuses, Q { s with
      keyKsvPutMap := puts, executorStatusMap := statuses } := by
    intro puts statuses
    have hnil := hQ s s.keyRemoteGetMap puts s.sessionClientAddrMap statuses s.ioThreadId []
      (fun _ hout => absurd hout List.not_mem_nil) hs
    rwa [List.append_nil] at hnil
  obtain ⟨id, hid⟩ := ioThread_state env s
  rcases executorMessage_cases h with ⟨_, _, _, _, _, _, h⟩ |
    ⟨_, _, _, _, infos, hmessage, hparse, h⟩ | ⟨_, _, _, _, infos, _, _, h⟩ |
    ⟨packing, infos, h⟩ | ⟨_, _, _, rfl⟩ | ⟨_, _, _, rfl⟩ | rfl
  · unfold getRequest SchedState.sendDataReq at h
    simp only [hid] at h
    split at h
    · split at h
      · cases h
        exact hone _ _ _ _ _ _ trivial
      · cases h
        exact hone _ _ _ _ _ _ trivial
    · obtain ⟨key, _, rfl⟩ := Option.map_eq_some_iff.mp h
      exact hone _ _ _ _ _ _ trivial
  · exact hsend hmessage hparse h
  · obtain ⟨value, _, rfl⟩ := Option.map_eq_some_iff.mp h
    simp only [hid]
    split
    · exact hsame _ _
    · exact hone _ _ _ _ _ _ trivial
  · obtain ⟨output, _, rfl⟩ := Option.map_eq_some_iff.mp h
    exact hone _ _ _ _ _ _ trivial
  · exact hsame _ _
  · exact hsame _ _
  · exact hs

/-! ## Calls and data responses -/

section WaitingCalls

variable {env : SchedEnv} {Q : SchedState → Prop}

theorem callRequest_preserves
    (hQ : ∀ s waiting inflight callId id outs, (∀ out ∈ outs, out.IsData) → Q s → Q { s with
      keyCallIdMap := waiting, callIdInflightArgsMap := inflight, callId := callId
      ioThreadId := id, sent := s.sent ++ outs })
    (hsubmit : ∀ callId call s s', submit env now callId call s = some s' → Q s → Q s')
    {request : FunctionRequest} (h : callRequest env now appName sessionId s request = some s')
    (hs : Q s) : Q s' := by
  have hone : ∀ (s : SchedState) waiting id out, out.IsData → Q s → Q { s with
      keyCallIdMap := waiting, ioThreadId := id, sent := s.sent ++ [out] } := by
    intro s waiting id out hout hs
    refine hQ s waiting s.callIdInflightArgsMap s.callId id [out] (fun out' hout' => ?_) hs
    rw [List.mem_singleton.mp hout']
    exact hout
  have hsame : ∀ (s : SchedState) waiting inflight callId, Q s → Q { s with
      keyCallIdMap := waiting, callIdInflightArgsMap := inflight, callId := callId } := by
    intro s waiting inflight callId hs
    have hnil := hQ s waiting inflight callId s.ioThreadId []
      (fun _ hout => absurd hout List.not_mem_nil) hs
    rwa [List.append_nil] at hnil
  have hargs : Q (inflightArgsOf env sessionId request s).1 := by
    unfold inflightArgsOf
    simp only
    split
    · refine foldl_preserves (Q := fun acc : SchedState × Finset Bytes => Q acc.1) ?_ hs
      intro acc arg _ hacc
      obtain ⟨thread, hthread⟩ := ioThread_state env acc.1
      unfold checkKeyArg SchedState.sendDataReq
      simp only [hthread]
      split
      · exact hacc
      · split
        · exact hone acc.1 _ _ _ trivial hacc
        · exact hsame acc.1 _ _ _ hacc
    · exact hs
  have harrived : Q ((inflightArgsOf env sessionId request s).1.emit
      (.arrived s.callId (inflightArgsOf env sessionId request s).2)) :=
    hone _ _ _ _ trivial hargs
  unfold callRequest at h
  obtain ⟨s₁, hs₁, rfl⟩ := Option.map_eq_some_iff.mp h
  have hscheduled : Q s₁ := by
    split at hs₁
    · exact hsubmit _ _ _ _ hs₁ harrived
    · cases hs₁
      exact hsame _ _ _ _ harrived
  exact hsame s₁ _ _ _ hscheduled

theorem handleCall_preserves
    (hQ : ∀ s waiting inflight callId id outs, (∀ out ∈ outs, out.IsData) → Q s → Q { s with
      keyCallIdMap := waiting, callIdInflightArgsMap := inflight, callId := callId
      ioThreadId := id, sent := s.sent ++ outs }) (hclient : ∀ s cache addrs, Q s → Q { s with
      keyAddressCache := cache, sessionClientAddrMap := addrs })
    (hsubmit : ∀ callId call s s', submit env now callId call s = some s' → Q s → Q s')
    {call : FunctionCall} (h : handleCall env now call s = some s') (hs : Q s) : Q s' :=
  foldlM_preserves (fun _ _ _ _ hstep hs => callRequest_preserves hQ hsubmit hstep hs) h
    (hclient s _ _ hs)

theorem resumeCall_cases {callId : UInt32} (h : resumeCall env now key s callId = some s') :
    (∃ call s₁, submit env now (some callId) call s = some s₁ ∧
      s' = { s₁ with callIdInflightArgsMap := s₁.callIdInflightArgsMap.erase callId }) ∨
    ∃ inflight, s' =
      { s with callIdInflightArgsMap := s.callIdInflightArgsMap.set callId inflight } := by
  unfold resumeCall at h
  simp only at h
  split at h
  · obtain ⟨s₁, hs₁, rfl⟩ := Option.map_eq_some_iff.mp h
    exact Or.inl ⟨_, s₁, hs₁, rfl⟩
  · cases h
    exact Or.inr ⟨_, rfl⟩

theorem dataResp_loop {size : UInt32}
    (hresume : ∀ s callId s', resumeCall env now key s callId = some s' → Q s → Q s')
    (hforget : ∀ s waiting, Q s → Q { s with keyCallIdMap := waiting })
    (h : dataResp env now key size s = some s')
    (hs : Q (answerGets key [size.toUInt8] (s.receive key size))) :
    Q s' := by
  unfold dataResp at h
  simp only at h
  split at h
  · cases h
    exact hs
  · obtain ⟨s₁, hs₁, rfl⟩ := Option.map_eq_some_iff.mp h
    exact hforget s₁ _
      (foldlM_preserves (fun s callId _ s' hstep hs => hresume s callId s' hstep hs) hs₁ hs)

theorem dataResp_preserves
    (hQ : ∀ s lengths gets waiting inflight outs, (∀ out ∈ outs, out.IsData) → Q s →
      Q { s with
        keyLenMap := lengths, keyRemoteGetMap := gets, keyCallIdMap := waiting
        callIdInflightArgsMap := inflight, sent := s.sent ++ outs })
    (hsubmit : ∀ callId call s s', submit env now callId call s = some s' → Q s → Q s')
    {size : UInt32} (h : dataResp env now key size s = some s') (hs : Q s) : Q s' := by
  have hsame : ∀ (s : SchedState) waiting inflight, Q s → Q { s with
      keyCallIdMap := waiting, callIdInflightArgsMap := inflight } := by
    intro s waiting inflight hs
    have hnil := hQ s s.keyLenMap s.keyRemoteGetMap waiting inflight []
      (fun _ hout => absurd hout List.not_mem_nil) hs
    rwa [List.append_nil] at hnil
  have harrived : Q (s.receive key size) := by
    refine hQ s _ _ _ _ [.dataArrived key] (fun out hout => ?_) hs
    rw [List.mem_singleton.mp hout]
    trivial
  have hanswer : Q (answerGets key [size.toUInt8] (s.receive key size)) := by
    rw [answerGets_eq]
    refine hQ _ _ _ _ _ _ (fun out hout => ?_) harrived
    obtain ⟨request, -, rfl⟩ := List.mem_map.mp hout
    trivial
  refine dataResp_loop (fun s callId s' hstep hs => ?_) (fun s _ hs => hsame s _ _ hs) h hanswer
  rcases resumeCall_cases hstep with ⟨call, s₂, hs₂, rfl⟩ | ⟨inflight, rfl⟩
  · exact hsame s₂ _ _ (hsubmit _ _ _ _ hs₂ hs)
  · exact hsame s _ _ hs

end WaitingCalls

/-! ## The delay queue -/

section DelayPass

variable {env : SchedEnv} {Q : SchedState → Prop}

/-- The first loop of a pass over the delay queue.  `K` is what is known of the calls in the
queue. -/
theorem retryDelayed_keeps (hqueued : ∀ s, Q s → ∀ delayed ∈ s.delayCallQueue, K delayed)
    (hsched : ∀ now delayed s s', K delayed →
      scheduleFuncCall env now delayed.call s = some s' → Q s → Q s')
    (hqueue : ∀ s queue, (∀ delayed ∈ queue, K delayed) → Q s →
      Q { s with delayCallQueue := queue }) {n : Nat} (h : retryDelayed env clock n s = some s')
    (hs : Q s) : Q s' := by
  induction n generalizing s with
  | zero =>
    cases h
    exact hs
  | succ n ih =>
    unfold retryDelayed at h
    split at h
    · cases h
      exact hs
    next delayed rest hdelayed =>
      obtain ⟨s₁, hs₁, h⟩ := Option.bind_eq_some_iff.mp h
      have hknown := hqueued s hs delayed (by rw [hdelayed]; exact List.mem_cons_self)
      have hnext := hsched _ delayed s s₁ hknown hs₁ hs
      refine ih h (hqueue s₁ _ (fun d hd => ?_) hnext)
      exact hqueued s₁ hnext d (List.mem_of_mem_tail hd)

theorem forwardDelayed_keeps (hforward : ∀ delayed args s s', K delayed →
      forwardCallViaHelper env delayed.call.sessionId delayed.call.appName [delayed.call] args
        delayed.call.argFlag s = some s' → Q s → Q s')
    (hqueue : ∀ s queue, (∀ delayed ∈ queue, K delayed) → Q s →
      Q { s with delayCallQueue := queue }) {queue : List DelayFunctionCall}
    (h : forwardDelayed env stamp queue s = some s') (hK : ∀ delayed ∈ queue, K delayed)
    (hs : Q s) : Q s' := by
  induction queue generalizing s with
  | nil =>
    cases h
    exact hqueue s [] hK hs
  | cons delayed rest ih =>
    have hrest : ∀ d ∈ rest, K d := fun d hd => hK d (List.mem_cons_of_mem _ hd)
    unfold forwardDelayed at h
    split at h
    · split at h
      · exact ih h hrest hs
      · obtain ⟨s₁, hs₁, h⟩ := Option.bind_eq_some_iff.mp h
        exact ih h hrest (hforward delayed _ s s₁ (hK delayed List.mem_cons_self) hs₁ hs)
    · cases h
      exact hqueue s _ hK hs

theorem delayPass_keeps (hqueued : ∀ s, Q s → ∀ delayed ∈ s.delayCallQueue, K delayed)
    (hsched : ∀ now delayed s s', K delayed →
      scheduleFuncCall env now delayed.call s = some s' → Q s → Q s')
    (hforward : ∀ delayed args s s', K delayed →
      forwardCallViaHelper env delayed.call.sessionId delayed.call.appName [delayed.call] args
        delayed.call.argFlag s = some s' → Q s → Q s')
    (hqueue : ∀ s queue, (∀ delayed ∈ queue, K delayed) → Q s →
      Q { s with delayCallQueue := queue }) (h : delayPass env clock stamp s = some s') (hs : Q s) :
    Q s' := by
  obtain ⟨s₁, hs₁, h⟩ := Option.bind_eq_some_iff.mp h
  have hmid := retryDelayed_keeps hqueued hsched hqueue hs₁ hs
  exact forwardDelayed_keeps hforward hqueue h (hqueued s₁ hmid) hmid

theorem delayPass_preserves
    (hsched : ∀ now call s s', scheduleFuncCall env now call s = some s' → Q s → Q s')
    (hforward : ∀ sessionId appName calls args argFlag s s',
      forwardCallViaHelper env sessionId appName calls args argFlag s = some s' → Q s → Q s')
    (hqueue : ∀ s queue, Q s → Q { s with delayCallQueue := queue })
    (h : delayPass env clock stamp s = some s') (hs : Q s) : Q s' :=
  delayPass_keeps (K := fun _ => True) (fun _ _ _ _ => trivial)
    (fun _ _ _ _ _ h hs => hsched _ _ _ _ h hs)
    (fun _ _ _ _ _ h hs => hforward _ _ _ _ _ _ _ h hs) (fun _ _ _ hs => hqueue _ _ hs) h hs

end DelayPass

/-! ## Updates and reruns -/

def AppsOnly (s s' : SchedState) : Prop :=
  ∃ appInfoMap funcAppMap appCoordMap, s' = { s with
    appInfoMap := appInfoMap, funcAppMap := funcAppMap, appCoordMap := appCoordMap }

theorem addUpdate_cases (h : addUpdate now msg s = some s') :
    ∃ s₁, AppsOnly s s₁ ∧ s' = msg.triggers.foldl
      (addEntity now { ip := msg.ip, tid := msg.threadId } msg.appName) s₁ := by
  obtain ⟨s₁, hs₁, rfl⟩ := Option.map_eq_some_iff.mp h
  refine ⟨s₁, foldlM_preserves (Q := AppsOnly s) (fun u dependency _ u' hstep hu => ?_) hs₁
    (foldl_preserves (Q := AppsOnly s) (fun u function _ hu => ?_) ⟨_, _, _, rfl⟩), rfl⟩
  · obtain ⟨_, _, _, rfl⟩ := hu
    unfold addDependency at hstep
    split at hstep
    · cases hstep
      exact ⟨_, _, _, rfl⟩
    · obtain ⟨srcFunc, _, rfl⟩ := Option.map_eq_some_iff.mp hstep
      simp only
      split <;> exact ⟨_, _, _, rfl⟩
  · obtain ⟨_, _, _, rfl⟩ := hu
    exact ⟨_, _, _, rfl⟩

theorem handleUpdate_preserves {Q : SchedState → Prop}
    (hQ : ∀ s appInfoMap funcAppMap bucketAppMap appCoordMap bucketCoordMap triggers timeouts,
      Q s → Q { s with
        appInfoMap := appInfoMap, funcAppMap := funcAppMap, bucketAppMap := bucketAppMap
        appCoordMap := appCoordMap, bucketCoordMap := bucketCoordMap
        bucketTriggersMap := triggers, funcTriggerTimeoutMap := timeouts })
    (h : handleUpdate now msg s = some s') (hs : Q s) : Q s' := by
  unfold handleUpdate at h
  split at h
  · -- message type 0 adds functions, dependencies and triggers
    obtain ⟨_, ⟨_, _, _, rfl⟩, rfl⟩ := addUpdate_cases h
    refine foldl_preserves (fun s entity _ hs => ?_) (hQ s _ _ s.bucketAppMap _ s.bucketCoordMap
      s.bucketTriggersMap s.funcTriggerTimeoutMap hs)
    unfold addEntity
    simp only
    split
    · exact hQ s _ _ _ _ _ _ _ hs
    · split
      · exact hQ s _ _ _ _ _ _ _ hs
      · exact hQ s _ _ _ _ _ _ _ hs
  · cases h
    exact foldl_preserves (fun s _ _ hs => hQ s _ _ _ _ _ _ _ hs) hs
  · refine foldlM_preserves (fun s _ _ s' hstep hs => ?_) h hs
    obtain ⟨triggers, _, rfl⟩ := Option.map_eq_some_iff.mp hstep
    exact hQ s _ _ _ _ _ _ _ hs
  · cases h
    exact hs

/-- What new triggers have, and clearing keeps, all triggers of a scheduler have after
an update. -/
theorem handleUpdate_triggers {Q : Trigger → Prop}
    (hnew : ∀ {now type name primitive trigger} option hints,
      genTriggerPointer now type name primitive = some trigger →
      Q ((trigger.setTriggerOption option).setRerunMetadata hints))
    (hclear : ∀ session trigger, Q trigger → Q (trigger.clear session))
    (h : handleUpdate now msg s = some s') (hs : s.bucketTriggersMap.All Q) :
    s'.bucketTriggersMap.All Q := by
  unfold handleUpdate at h
  split at h
  · obtain ⟨_, ⟨_, _, _, rfl⟩, rfl⟩ := addUpdate_cases h
    refine foldl_preserves (Q := fun s' : SchedState => s'.bucketTriggersMap.All Q)
      (fun s entity _ hs => ?_) hs
    unfold addEntity
    simp only
    split
    · exact hs
    · split
      · exact hs
      next trigger htrigger => exact hs.push _ (hnew _ _ htrigger)
  · cases h
    refine foldl_preserves (Q := fun s' : SchedState => s'.bucketTriggersMap.All Q)
      (fun s entity _ hs => hs.visit _ fun trigger htrigger => ?_) hs
    simp only
    split
    · exact hclear _ trigger htrigger
    · exact htrigger
  · refine foldlM_preserves (Q := fun s' : SchedState => s'.bucketTriggersMap.All Q)
      (fun s _ _ s' hstep hs => ?_) h hs
    obtain ⟨triggers, herase, rfl⟩ := Option.map_eq_some_iff.mp hstep
    exact hs.eraseFirst herase
  · cases h
    exact hs

theorem topItem_mem {items : List RerunCheckQueueItem} {item : RerunCheckQueueItem}
    (h : topItem items = some item) : item ∈ items := by
  induction items with
  | nil => cases h
  | cons first items ih =>
    unfold topItem at h
    split at h
    · cases h
      exact List.mem_cons_self
    next top htop =>
      split at h
      · cases h
        exact List.mem_cons_self
      · cases h
        exact List.mem_cons_of_mem _ (ih htop)

/-- The rerun check.  `K` is what is known of the items in its queue. -/
theorem rerunCheck_keeps {env : SchedEnv} {Q : SchedState → Prop} {K : RerunCheckQueueItem → Prop}
    (hqueued : ∀ s, Q s → ∀ item ∈ s.rerunCheckQueue, K item)
    (hsubmit : ∀ item call s s', K item → call.sessionId = item.session →
      submit env now none call s = some s' → Q s → Q s')
    (hqueue : ∀ s queue, (∀ item ∈ queue, K item) → Q s → Q { s with rerunCheckQueue := queue })
    (h : rerunCheck env now reportEnd fuel s = some s') (hs : Q s) : Q s' := by
  induction fuel generalizing s with
  | zero =>
    cases h
    exact hs
  | succ fuel ih =>
    unfold rerunCheck at h
    split at h
    · cases h
      exact hs
    next item hitem =>
      split at h
      · obtain ⟨s₁, hs₁, h⟩ := Option.bind_eq_some_iff.mp h
        have hknown := hqueued s hs item (topItem_mem hitem)
        have hmid : Q s₁ := by
          unfold rerunItem at hs₁
          split at hs₁
          · cases hs₁
            exact hs
          · exact foldlM_preserves
              (fun s _ _ s' hstep hs => hsubmit item _ s s' hknown rfl hstep hs) hs₁ hs
        refine ih h ?_
        split
        · exact hmid
        · refine hqueue s₁ _ (fun i hi => ?_) hmid
          exact hqueued s₁ hmid i (List.mem_of_mem_erase hi)
      · cases h
        exact hs

theorem rerunCheck_preserves {env : SchedEnv} {Q : SchedState → Prop}
    (hsubmit : ∀ call s s', submit env now none call s = some s' → Q s → Q s')
    (hqueue : ∀ s queue, Q s → Q { s with rerunCheckQueue := queue })
    (h : rerunCheck env now reportEnd fuel s = some s') (hs : Q s) : Q s' :=
  rerunCheck_keeps (K := fun _ => True) (fun _ _ _ _ => trivial)
    (fun _ _ _ _ _ _ h hs => hsubmit _ _ _ h hs) (fun _ _ _ hs => hqueue _ _ hs) h hs

end Pheromone.Scheduler
