import Pheromone.Scheduler.Proofs.DataArrival

/-!
# Waiting calls over whole runs

Call messages, data responses and all the other messages of a node arrive in any
order.
-/

namespace Pheromone.Scheduler

open Lib Common

variable {env : SchedEnv} {s s' : SchedState} {now : Stamp}

def describeRequest (sessionId : Session) (request : FunctionRequest) :
    Name × Session × List Bytes × Int :=
  (request.name, sessionId, request.arguments.map Argument.body, argFlagOf request.arguments)

def InflightFuncArgs.describe (args : InflightFuncArgs) : Name × Session × List Bytes × Int :=
  (args.funcName, args.sessionId, args.keyArgs, args.argFlag)

def NodeEvent.calls : NodeEvent → List (Name × Session × List Bytes × Int)
  | .call _ msg => msg.requests.map (describeRequest msg.sessionId)
  | _ => []

structure StepInv (calls : List (Name × Session × List Bytes × Int)) (s s' : SchedState) :
    Prop where
  arrived : (arrivals s'.sent).map (fun arrival => arrival.2.describe) =
    (arrivals s.sent).map (fun arrival => arrival.2.describe) ++ calls
  marks : Marks s s'

structure SchedState.NoCalls (s : SchedState) : Prop where
  sent : s.sent = []
  callId : s.callId = 0
  inflight : ∀ callId, s.callIdInflightArgsMap callId = none
  waiting : ∀ key, s.keyCallIdMap key = none

theorem SchedState.NoCalls.inflightInv (h : s.NoCalls) : InflightInv s := by
  constructor
  · intro callId
    rw [h.sent, h.inflight]
    rfl
  · intro callId key
    rw [h.inflight, h.waiting]
    simp
  · intro key ids hids
    rw [h.waiting] at hids
    cases hids
  · intro callId
    rw [h.sent]
    rfl
  · intro callId args hargs
    rw [h.sent] at hargs
    cases hargs
  · refine ⟨0, h.callId, Nat.zero_le _, fun callId args hargs => ?_⟩
    rw [h.sent] at hargs
    cases hargs
  · intro before key thread after heq
    rw [h.sent] at heq
    simp at heq
  · rw [h.sent]
    exact List.nodup_nil

/-! ## The trace only grows -/

theorem submit_sent {callId : Option UInt32} {call : SchedCall}
    (h : submit env now callId call s = some s') : s.sent <+: s'.sent := by
  obtain ⟨outs, hsent, _⟩ := (scheduleFuncCall_callFrame h).sent
  rw [hsent]
  exact (List.prefix_append _ _).trans (List.prefix_append _ _)

theorem callRequest_sent {appName : Name} {sessionId : Session} {request : FunctionRequest}
    (h : callRequest env now appName sessionId s request = some s') : s.sent <+: s'.sent :=
  callRequest_preserves (Q := fun s' => s.sent <+: s'.sent)
    (fun _ _ _ _ _ _ _ hs => hs.trans (List.prefix_append _ _))
    (fun _ _ _ _ h hs => hs.trans (submit_sent h)) h (List.prefix_refl _)

theorem dataResp_sent {key : Bytes} {size : UInt32} (h : dataResp env now key size s = some s') :
    s.sent <+: s'.sent :=
  dataResp_preserves (Q := fun s' => s.sent <+: s'.sent)
    (fun _ _ _ _ _ _ _ hs => hs.trans (List.prefix_append _ _))
    (fun _ _ _ _ h hs => hs.trans (submit_sent h)) h (List.prefix_refl _)

theorem handleCall_sent {call : FunctionCall} (h : handleCall env now call s = some s') :
    s.sent <+: s'.sent :=
  foldlM_preserves (Q := fun s₁ : SchedState => s.sent <+: s₁.sent)
    (fun _ _ _ _ hstep hle => hle.trans (callRequest_sent hstep)) h (List.prefix_refl _)

theorem nodeStep_sent {e : NodeEvent} (h : nodeStep env s e = some s') : s.sent <+: s'.sent := by
  cases e with
  | call now msg => exact handleCall_sent h
  | dataResp now key size => exact dataResp_sent h
  | executor | kvsGetResp | kvsPutResp | update | delayPass | rerunCheck =>
    exact (nodeStep_localFrame h trivial).sent

theorem callsMade_le_of_isPrefix {trace trace' : List SchedOut} (h : trace <+: trace') :
    callsMade trace ≤ callsMade trace' :=
  h.sublist.countP_le

/-! ## One message -/

theorem foldlM_callRequest {appName : Name} {sessionId : Session} {s₀ : SchedState}
    (requests : List FunctionRequest) :
    ∀ {s s' : SchedState} {calls : List (Name × Session × List Bytes × Int)}, InflightInv s →
      StepInv calls s₀ s →
      requests.foldlM (callRequest env now appName sessionId) s = some s' →
      callsMade s'.sent < 2 ^ 32 →
      InflightInv s' ∧ StepInv (calls ++ requests.map (describeRequest sessionId)) s₀ s' := by
  induction requests with
  | nil =>
    intro s s' calls hs hstep hfold _
    cases hfold
    rw [List.map_nil, List.append_nil]
    exact ⟨hs, hstep⟩
  | cons request requests ih =>
    intro s s' calls hs hstep hfold hcalls
    have hgrows : s.sent <+: s'.sent :=
      foldlM_preserves (Q := fun s₁ : SchedState => s.sent <+: s₁.sent)
        (fun _ _ _ _ hstep hle => hle.trans (callRequest_sent hstep)) hfold
        (List.prefix_refl _)
    have hbound := (callsMade_le_of_isPrefix hgrows).trans_lt hcalls
    obtain ⟨s₁, hs₁, hfold⟩ := foldlM_cons_eq_some.mp hfold
    have harrived := callRequest_arrived hs.nonempty hs₁
    have hnext : StepInv (calls ++ [describeRequest sessionId request]) s₀ s₁ := by
      refine ⟨?_, hstep.marks.of_arrivedCall hs hbound harrived⟩
      rw [harrived.arrivals, List.map_append, hstep.arrived, List.append_assoc]
      rfl
    have hrest := ih (hs.of_arrivedCall hbound harrived) hnext hfold hcalls
    rw [List.append_assoc, List.singleton_append] at hrest
    exact hrest

theorem handleCall_inflight {call : FunctionCall} (hs : InflightInv s)
    (h : handleCall env now call s = some s') (hcalls : callsMade s'.sent < 2 ^ 32) :
    InflightInv s' ∧ StepInv (call.requests.map (describeRequest call.sessionId)) s s' := by
  have hframe : CallFrame s { cacheAddresses call s with
      sessionClientAddrMap := s.sessionClientAddrMap.set call.sessionId call.respAddress } :=
    ⟨rfl, rfl, rfl, fun _ _ h => h, [], by simp [cacheAddresses], by simp⟩
  have hstart : StepInv [] s { cacheAddresses call s with
      sessionClientAddrMap := s.sessionClientAddrMap.set call.sessionId call.respAddress } := by
    refine ⟨?_, (Marks.refl s).of_callFrame hframe⟩
    rw [List.append_nil]
    rfl
  exact foldlM_callRequest call.requests (hs.of_callFrame hframe) hstart h hcalls

theorem LocalFrame.stepInv (h : LocalFrame s s') : StepInv [] s s' := by
  refine ⟨?_, Marks.of_localFrame h⟩
  rw [h.arrivals, List.append_nil]

theorem nodeStep_inflight {e : NodeEvent} (hs : InflightInv s) (h : nodeStep env s e = some s')
    (hcalls : callsMade s'.sent < 2 ^ 32) : InflightInv s' ∧ StepInv e.calls s s' := by
  cases e with
  | call now msg => exact handleCall_inflight hs h hcalls
  | dataResp now key size =>
    obtain ⟨hinv, hmarks, harrivals⟩ := dataResp_inflight hs h
    refine ⟨hinv, ?_, hmarks⟩
    rw [harrivals]
    exact (List.append_nil _).symm
  | executor | kvsGetResp | kvsPutResp | update | delayPass | rerunCheck =>
    have hframe := nodeStep_localFrame h trivial
    exact ⟨hs.of_localFrame hframe, hframe.stepInv⟩

theorem run_sent {t : SchedState} {es : List NodeEvent} (hrun : run (nodeStep env) s es = some t) :
    s.sent <+: t.sent :=
  @run_invariant _ _ (nodeStep env) (fun s' => s.sent <+: s'.sent) (fun _ _ => True)
    (fun _ _ _ hle _ hstep => hle.trans (nodeStep_sent hstep)) s t es (List.prefix_refl _)
    (along_true _ _) hrun

theorem run_inflight (es : List NodeEvent) :
    ∀ {s t : SchedState}, InflightInv s → run (nodeStep env) s es = some t →
      callsMade t.sent < 2 ^ 32 → InflightInv t := by
  induction es with
  | nil =>
    intro s t hs hrun _
    cases hrun
    exact hs
  | cons e es ih =>
    intro s t hs hrun hcalls
    obtain ⟨s₁, hs₁, hrun⟩ := run_cons_eq_some.mp hrun
    have hbound := (callsMade_le_of_isPrefix (run_sent hrun)).trans_lt hcalls
    exact ih (nodeStep_inflight hs hs₁ hbound).1 hrun hcalls

/-! ## The loops are defined -/

theorem callRequest_isSome (hsched : ∀ call s, (scheduleFuncCall env now call s).isSome)
    (appName : Name) (sessionId : Session) (s : SchedState) (request : FunctionRequest) :
    (callRequest env now appName sessionId s request).isSome := by
  unfold callRequest
  simp only [Option.map_eq_map, Option.isSome_map]
  split
  · exact hsched _ _
  · rfl

theorem resumeCall_isSome (hsched : ∀ call s, (scheduleFuncCall env now call s).isSome)
    (key : Bytes) (s : SchedState) (callId : UInt32) :
    (resumeCall env now key s callId).isSome := by
  unfold resumeCall
  simp only
  split
  · rw [Option.map_eq_map, Option.isSome_map]
    exact hsched _ _
  · rfl

theorem dataResp_isSome (hsched : ∀ call s, (scheduleFuncCall env now call s).isSome) (key : Bytes)
    (size : UInt32) (s : SchedState) : (dataResp env now key size s).isSome := by
  unfold dataResp
  simp only
  split
  · rfl
  · rw [Option.map_eq_map, Option.isSome_map]
    exact foldlM_isSome (resumeCall_isSome hsched key) _ _

/-! ## The result -/

/-- What holds of the waiting calls of a scheduler at any time. -/
structure ScheduledOnce (s : SchedState) : Prop where
  /-- The two maps index the same waiting calls. -/
  index : ∀ callId key, (∃ ids, s.keyCallIdMap key = some ids ∧ callId ∈ ids) ↔
    ∃ args, s.callIdInflightArgsMap callId = some args ∧ key ∈ args.inflightArgs
  distinct : ((arrivals s.sent).map Prod.fst).Nodup
  /-- A call was handed over once when all its objects have arrived, and not yet
  otherwise. -/
  handed : ∀ callId, (handed callId s.sent).length =
    if (pending callId s.sent).any (fun args => decide (args.inflightArgs = ∅)) then 1 else 0
  requests : RequestsOnce s.sent

theorem mem_foldl_checkKeyArg (env : SchedEnv) (args : List Bytes) (key : Bytes) :
    ∀ acc : SchedState × Finset Bytes, key ∈ (args.foldl (checkKeyArg env) acc).2 ↔
      key ∈ acc.2 ∨ (key ∈ args ∧ acc.1.keyLenMap key = none) := by
  induction args with
  | nil =>
    intro acc
    simp
  | cons arg args ih =>
    intro acc
    rw [List.foldl_cons, ih]
    cases hlen : acc.1.keyLenMap arg with
    | some size =>
      rw [checkKeyArg_present env hlen, List.mem_cons]
      constructor
      · rintro (hacc | ⟨hmem, hnone⟩)
        · exact Or.inl hacc
        · exact Or.inr ⟨Or.inr hmem, hnone⟩
      · rintro (hacc | ⟨rfl | hmem, hnone⟩)
        · exact Or.inl hacc
        · rw [hlen] at hnone
          cases hnone
        · exact Or.inr ⟨hmem, hnone⟩
    | none =>
      obtain ⟨id, reqs, _, heq⟩ := checkKeyArg_missing env hlen
      rw [heq, Finset.mem_insert, List.mem_cons]
      constructor
      · rintro ((rfl | hacc) | ⟨hmem, hnone⟩)
        · exact Or.inr ⟨Or.inl rfl, hlen⟩
        · exact Or.inl hacc
        · exact Or.inr ⟨Or.inr hmem, hnone⟩
      · rintro (hacc | ⟨rfl | hmem, hnone⟩)
        · exact Or.inl (Or.inr hacc)
        · exact Or.inl (Or.inl rfl)
        · exact Or.inr ⟨hmem, hnone⟩

theorem mem_inflightArgsOf (env : SchedEnv) (sessionId : Session) (request : FunctionRequest)
    (s : SchedState) (key : Bytes) :
    key ∈ (inflightArgsOf env sessionId request s).2.inflightArgs ↔
      0 < argFlagOf request.arguments ∧ key ∈ request.arguments.map Argument.body ∧
        s.keyLenMap key = none := by
  unfold inflightArgsOf
  by_cases hflag : 0 < argFlagOf request.arguments
  · simp only [hflag, if_true, true_and]
    rw [mem_foldl_checkKeyArg]
    simp
  · simp only [hflag, if_false, false_and, iff_false]
    exact Finset.notMem_empty key

/-- In every order of messages the calls that wait for objects are scheduled once
and complete: a call misses the keys that have no length when it arrives, is
handed over as soon as none is left, with its keys in order and their lengths, and
an object is requested when it is missing and no call waits for it. -/
theorem waiting_calls_scheduled_once (env : SchedEnv) {s t : SchedState} (hs : s.NoCalls)
    (es : List NodeEvent) (hrun : run (nodeStep env) s es = some t)
    (hcalls : callsMade t.sent < 2 ^ 32) :
    ScheduledOnce t ∧
      (∀ e t', nodeStep env t e = some t' → callsMade t'.sent < 2 ^ 32 →
        StepInv e.calls t t') ∧
      (∀ sessionId request s key,
        key ∈ (inflightArgsOf env sessionId request s).2.inflightArgs ↔
          0 < argFlagOf request.arguments ∧ key ∈ request.arguments.map Argument.body ∧
            s.keyLenMap key = none) ∧
      ∀ now, (∀ call s, (scheduleFuncCall env now call s).isSome) →
        ∀ s, (∀ call, (handleCall env now call s).isSome) ∧
          ∀ key size, (dataResp env now key size s).isSome := by
  have hinv := run_inflight es hs.inflightInv hrun hcalls
  refine ⟨⟨hinv.index, hinv.distinct, hinv.handed, hinv.requests⟩, ?_,
    mem_inflightArgsOf env, ?_⟩
  · intro e t' hstep hbound
    exact (nodeStep_inflight hinv hstep hbound).2
  · intro now hsched s
    exact ⟨fun call => foldlM_isSome (callRequest_isSome hsched _ _) _ _,
      fun key size => dataResp_isSome hsched key size s⟩

def forwardingEnv : SchedEnv where
  ip := Bytes.lit "10.0.0.1"
  ioThreadCount := 1
  ioThreadCount_pos := Nat.one_pos
  schedDelayTime := 0
  sharedExecutor := false
  rejectExtraReq := false
  randR := fun seed => (0, seed)
  readShm := fun _ _ => []

def twiceCall : FunctionCall where
  appName := Bytes.lit "app"
  requests := [{
    name := Bytes.lit "f"
    arguments := [
      { body := Bytes.lit "b|k", argFlag := 1, dataAddress := Bytes.lit "10.0.0.2" },
      { body := Bytes.lit "b|k", argFlag := 1, dataAddress := Bytes.lit "10.0.0.2" }] }]
  sessionId := Bytes.lit "0123456789abcdef"

theorem waiting_calls_scheduled_once_twiceCall :
    ∃ t, run (nodeStep forwardingEnv) (SchedState.new 0 1)
        [.executor 0 [1, 7], .call 0 twiceCall, .dataResp 1 (Bytes.lit "b|k") 7] = some t ∧
      ScheduledOnce t ∧
      (handed 0 t.sent).map SchedCall.funcArgs =
        [[Bytes.lit "b|k", Bytes.lit "7", Bytes.lit "b|k", Bytes.lit "7"]] := by
  let es : List NodeEvent :=
    [.executor 0 [1, 7], .call 0 twiceCall, .dataResp 1 (Bytes.lit "b|k") 7]
  have hdefined : (run (nodeStep forwardingEnv) (SchedState.new 0 1) es).map
      (fun t => (callsMade t.sent, (handed 0 t.sent).map SchedCall.funcArgs)) =
        some (1, [[Bytes.lit "b|k", Bytes.lit "7", Bytes.lit "b|k", Bytes.lit "7"]]) := by
    decide
  obtain ⟨t, ht, heq⟩ := Option.map_eq_some_iff.mp hdefined
  rw [Prod.mk.injEq] at heq
  have hstart : (SchedState.new 0 1).NoCalls := ⟨rfl, rfl, fun _ => rfl, fun _ => rfl⟩
  refine ⟨t, ht, (waiting_calls_scheduled_once forwardingEnv hstart es ht ?_).1, heq.2⟩
  rw [heq.1]
  decide

end Pheromone.Scheduler
