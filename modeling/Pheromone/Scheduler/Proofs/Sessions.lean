import Pheromone.Scheduler.Proofs.InflightArgs

/-!
# Sessions on a node

Every call on a node belongs to a session that came with a client call, and
`session_client_addr_map` has no address for a session but the one of its client.
`log` holds the sessions of the client calls and where their clients wait.
-/

namespace Pheromone.Scheduler

open Lib Common

abbrev SessionLog := List (Session × Address)

variable {s s' : SchedState} {now : Stamp} {key : Bytes} {sessionId : Session}
  {executor : ExecutorId} {infos : SendInfos} {log' : SessionLog} {packing : Packing}
  {appName : Name} {bk : BucketKey} {out : SchedOut} {reqId : UInt8}

def Known (log : SessionLog) (session : Session) : Prop := ∃ address, (session, address) ∈ log

/-- `address` is empty or the client of the session waits there. -/
def Route (log : SessionLog) (session : Session) (address : Address) : Prop :=
  address = [] ∨ (session, address) ∈ log

def SchedOut.Traced (log : SessionLog) : SchedOut → Prop
  | .toExecutor _ call message =>
      Known log call.sessionId ∧ ∃ clientAddr, message = callMessage call clientAddr
  | .forward _ _ message =>
      Known log message.sessionId ∧ Route log message.sessionId message.respAddress
  | .notify _ request => ∀ object ∈ request.addresses,
      Known log object.session ∧ Route log object.session request.responseAddress
  | .clientResponse session address _ => Route log session address
  | _ => True

structure SessionInv (log : SessionLog) (s : SchedState) : Prop where
  addr : ∀ session address, s.sessionClientAddrMap session = some address →
    Route log session address
  delayed : ∀ delayed ∈ s.delayCallQueue, Known log delayed.call.sessionId
  inflight : ∀ callId args, s.callIdInflightArgsMap callId = some args →
    Known log args.sessionId
  rerun : ∀ item ∈ s.rerunCheckQueue, Known log item.session
  sent : ∀ out ∈ s.sent, out.Traced log

theorem Known.mono {log : SessionLog} {session : Session} (h : Known log session)
    (hlog : log ⊆ log') : Known log' session := by
  obtain ⟨address, haddress⟩ := h
  exact ⟨address, hlog haddress⟩

theorem Route.mono {log : SessionLog} {session : Session} {address : Address}
    (h : Route log session address) (hlog : log ⊆ log') : Route log' session address :=
  h.imp_right fun hmem => hlog hmem

theorem SchedOut.Traced.mono {log : SessionLog} (h : out.Traced log) (hlog : log ⊆ log') :
    out.Traced log' := by
  cases out with
  | toExecutor executor call message => exact ⟨h.1.mono hlog, h.2⟩
  | forward calls address message => exact ⟨h.1.mono hlog, h.2.mono hlog⟩
  | notify address request =>
    exact fun object hobject => ⟨(h object hobject).1.mono hlog, (h object hobject).2.mono hlog⟩
  | clientResponse session address response => exact Route.mono h hlog
  | _ => trivial

namespace SessionInv

variable {log : SessionLog}

theorem mono (hs : SessionInv log s) (hlog : log ⊆ log') :
    SessionInv log' s where
  addr session address h := (hs.addr session address h).mono hlog
  delayed d hd := (hs.delayed d hd).mono hlog
  inflight callId args h := (hs.inflight callId args h).mono hlog
  rerun item hitem := (hs.rerun item hitem).mono hlog
  sent out hout := (hs.sent out hout).mono hlog

theorem clientAddr (hs : SessionInv log s) (session : Session) :
    Route log session (s.clientAddr session) := by
  unfold SchedState.clientAddr Map.getD
  cases haddress : s.sessionClientAddrMap session with
  | none => exact Or.inl rfl
  | some address => exact hs.addr session address haddress

theorem addr_touch (hs : SessionInv log s) (name : Session) :
    ∀ session address, s.sessionClientAddrMap.touch name [] session = some address →
      Route log session address := by
  intro session address h
  by_cases heq : session = name
  · subst heq
    rw [Map.touch_self, Option.some.injEq] at h
    rw [← h]
    exact hs.clientAddr session
  · rw [Map.touch_of_ne _ _ heq] at h
    exact hs.addr session address h

theorem of_eq (hs : SessionInv log s) (outs : List SchedOut)
    (haddr : s'.sessionClientAddrMap = s.sessionClientAddrMap)
    (hdelayed : s'.delayCallQueue = s.delayCallQueue)
    (hinflight : s'.callIdInflightArgsMap = s.callIdInflightArgsMap)
    (hrerun : s'.rerunCheckQueue = s.rerunCheckQueue) (hsent : s'.sent = s.sent ++ outs)
    (houts : ∀ out ∈ outs, out.Traced log) : SessionInv log s' where
  addr := by
    rw [haddr]
    exact hs.addr
  delayed := by
    rw [hdelayed]
    exact hs.delayed
  inflight := by
    rw [hinflight]
    exact hs.inflight
  rerun := by
    rw [hrerun]
    exact hs.rerun
  sent := by
    rw [hsent]
    intro out hout
    rcases List.mem_append.mp hout with hout | hout
    · exact hs.sent out hout
    · exact houts out hout

theorem emit (hs : SessionInv log s) (hout : out.Traced log) : SessionInv log (s.emit out) := by
  refine hs.of_eq [out] rfl rfl rfl rfl rfl ?_
  intro o ho
  rw [List.mem_singleton.mp ho]
  exact hout

theorem touchClientAddr (hs : SessionInv log s) (session : Session) :
    SessionInv log (s.touchClientAddr session) :=
  { hs with addr := hs.addr_touch session }

end SessionInv

/-! ## Scheduling -/

section Scheduling

variable {log : SessionLog} {env : SchedEnv}

theorem forwardCallViaHelper_session {calls : List SchedCall} {args : List (List Bytes)}
    {argFlag : Int} (hs : SessionInv log s) (hknown : Known log sessionId)
    (h : forwardCallViaHelper env sessionId appName calls args argFlag s = some s') :
    SessionInv log s' := by
  obtain ⟨address, requests, touched, keyLenMap, id, _, rfl⟩ := forwardCallViaHelper_spec h
  have hout : (SchedOut.forward calls address
      (forwardMessage env s sessionId appName requests)).Traced log :=
    ⟨hknown, hs.clientAddr sessionId⟩
  have htouched := (hs.touchClientAddr sessionId).emit hout
  exact ⟨htouched.addr, htouched.delayed, htouched.inflight, htouched.rerun, htouched.sent⟩

theorem mem_rerunCheckQueue_foldl {call : SchedCall} (reruns : List RerunTriggerTimeout)
    {item : RerunCheckQueueItem}
    (h : item ∈ (reruns.foldl (recordRerun now call) s).rerunCheckQueue) :
    item ∈ s.rerunCheckQueue ∨ item.session = call.sessionId := by
  induction reruns generalizing s with
  | nil => exact Or.inl h
  | cons rerun reruns ih =>
    rcases ih h with hold | hsession
    · rcases List.mem_append.mp hold with hold | hnew
      · exact Or.inl hold
      · rw [List.mem_singleton.mp hnew]
        exact Or.inr rfl
    · exact Or.inr hsession

theorem sendToExecutor_session {call : SchedCall} {seed : UInt32} {cold : Bool}
    (hs : SessionInv log s) (hknown : Known log call.sessionId) :
    SessionInv log (sendToExecutor now call executor seed cold s) := by
  have hrerun : ∀ item ∈ (sendToExecutor now call executor seed cold s).rerunCheckQueue,
      Known log item.session := by
    intro item hitem
    unfold sendToExecutor at hitem
    rcases mem_rerunCheckQueue_foldl _ hitem with hold | hsession
    · exact hs.rerun item hold
    · rw [hsession]
      exact hknown
  obtain ⟨triggers, queue, executors, _, heq⟩ :=
    sendToExecutor_spec now call executor seed cold s
  have hout : (SchedOut.toExecutor executor call
      (callMessage call (s.clientAddr call.sessionId))).Traced log := ⟨hknown, _, rfl⟩
  have htouched := (hs.touchClientAddr call.sessionId).emit hout
  rw [heq] at hrerun ⊢
  exact ⟨htouched.addr, htouched.delayed, htouched.inflight, hrerun, htouched.sent⟩

theorem scheduleFuncCall_session {call : SchedCall} (hs : SessionInv log s)
    (hknown : Known log call.sessionId) (h : scheduleFuncCall env now call s = some s') :
    SessionInv log s' := by
  rcases scheduleFuncCall_cases h with ⟨executor, seed, cold, _, rfl⟩ | ⟨_, _, rfl⟩ |
    ⟨_, _, _, rfl⟩ | ⟨_, _, _, args, _, hforward⟩
  · exact sendToExecutor_session hs hknown
  · refine { hs with delayed := ?_ }
    intro delayed hdelayed
    rcases List.mem_append.mp hdelayed with hold | hnew
    · exact hs.delayed delayed hold
    · rw [List.mem_singleton.mp hnew]
      exact hknown
  · exact hs
  · exact forwardCallViaHelper_session hs hknown hforward

theorem submit_session {callId : Option UInt32} {call : SchedCall} (hs : SessionInv log s)
    (hknown : Known log call.sessionId) (h : submit env now callId call s = some s') :
    SessionInv log s' := by
  have hout : (SchedOut.submit callId call).Traced log := trivial
  exact scheduleFuncCall_session (hs.emit hout) hknown h

theorem delayPass_session {clock : Nat → Stamp} {stamp : Stamp} (hs : SessionInv log s)
    (h : delayPass env clock stamp s = some s') : SessionInv log s' :=
  delayPass_keeps (K := fun delayed => Known log delayed.call.sessionId) (fun _ hs => hs.delayed)
    (fun _ _ _ _ hknown h hs => scheduleFuncCall_session hs hknown h)
    (fun _ _ _ _ hknown h hs => forwardCallViaHelper_session hs hknown h)
    (fun _ _ hqueue hs => { hs with delayed := hqueue }) h hs

/-! ## Calls and objects from other nodes -/

theorem checkKeyArg_session {acc : SchedState × Finset Bytes} (arg : Bytes)
    (hacc : SessionInv log acc.1) : SessionInv log (checkKeyArg env acc arg).1 := by
  cases hlen : acc.1.keyLenMap arg with
  | some size =>
    rw [checkKeyArg_present env hlen]
    exact hacc
  | none =>
    obtain ⟨id, reqs, hreqs, heq⟩ := checkKeyArg_missing env hlen
    rw [heq]
    refine hacc.of_eq reqs rfl rfl rfl rfl rfl ?_
    intro out hout
    obtain ⟨thread, rfl, _⟩ := hreqs out hout
    trivial

theorem inflightArgsOf_session {request : FunctionRequest} (hs : SessionInv log s) :
    SessionInv log (inflightArgsOf env sessionId request s).1 := by
  unfold inflightArgsOf
  simp only
  split
  · exact foldl_preserves (Q := fun acc : SchedState × Finset Bytes => SessionInv log acc.1)
      (fun acc arg _ hacc => checkKeyArg_session arg hacc) hs
  · exact hs

theorem SessionInv.set_inflight (hs : SessionInv log s) {args : InflightFuncArgs}
    (hknown : Known log args.sessionId) (callId : UInt32) :
    SessionInv log
      { s with callIdInflightArgsMap := s.callIdInflightArgsMap.set callId args } := by
  refine { hs with inflight := fun id found hfound => ?_ }
  change s.callIdInflightArgsMap.set callId args id = some found at hfound
  by_cases hid : id = callId
  · rw [hid, Map.set_self, Option.some.injEq] at hfound
    rw [← hfound]
    exact hknown
  · rw [Map.set_of_ne _ _ hid] at hfound
    exact hs.inflight id found hfound

theorem SessionInv.erase_inflight (hs : SessionInv log s) (callId : UInt32) :
    SessionInv log { s with callIdInflightArgsMap := s.callIdInflightArgsMap.erase callId } := by
  refine { hs with inflight := fun id found hfound => ?_ }
  change s.callIdInflightArgsMap.erase callId id = some found at hfound
  by_cases hid : id = callId
  · rw [hid, Map.erase_self] at hfound
    cases hfound
  · rw [Map.erase_of_ne _ hid] at hfound
    exact hs.inflight id found hfound

theorem callRequest_session {request : FunctionRequest} (hs : SessionInv log s)
    (hknown : Known log sessionId) (h : callRequest env now appName sessionId s request = some s') :
    SessionInv log s' := by
  have hchecked : SessionInv log (inflightArgsOf env sessionId request s).1 :=
    inflightArgsOf_session hs
  have hargs : Known log (inflightArgsOf env sessionId request s).2.sessionId := hknown
  unfold callRequest at h
  obtain ⟨s₁, hs₁, rfl⟩ := Option.map_eq_some_iff.mp h
  have hout : (SchedOut.arrived s.callId (inflightArgsOf env sessionId request s).2).Traced log :=
    trivial
  have hemit := hchecked.emit hout
  have hresult : SessionInv log s₁ := by
    split at hs₁
    · exact submit_session hemit hargs hs₁
    · cases hs₁
      exact hemit.set_inflight hargs _
  exact ⟨hresult.addr, hresult.delayed, hresult.inflight, hresult.rerun, hresult.sent⟩

theorem handleCall_session {call : FunctionCall} (hs : SessionInv log s)
    (hknown : Known log call.sessionId) (hroute : Route log call.sessionId call.respAddress)
    (h : handleCall env now call s = some s') : SessionInv log s' := by
  refine foldlM_preserves (Q := SessionInv log)
    (fun _ _ _ _ hstep hs => callRequest_session hs hknown hstep) h ?_
  refine { hs with addr := fun session address haddress => ?_ }
  change s.sessionClientAddrMap.set call.sessionId call.respAddress session = some address
    at haddress
  by_cases heq : session = call.sessionId
  · rw [heq, Map.set_self, Option.some.injEq] at haddress
    rw [heq, ← haddress]
    exact hroute
  · rw [Map.set_of_ne _ _ heq] at haddress
    exact hs.addr session address haddress

theorem resumeCall_session {callId : UInt32} {args : InflightFuncArgs} (hs : SessionInv log s)
    (hfound : s.callIdInflightArgsMap callId = some args)
    (h : resumeCall env now key s callId = some s') : SessionInv log s' := by
  have hknown := hs.inflight callId args hfound
  unfold resumeCall at h
  simp only [Map.getD_of_some _ hfound] at h
  split at h
  · obtain ⟨s₁, hs₁, rfl⟩ := Option.map_eq_some_iff.mp h
    exact (submit_session hs hknown hs₁).erase_inflight callId
  · cases h
    have hargs : Known log ({ args with
      inflightArgs := args.inflightArgs.erase key } : InflightFuncArgs).sessionId := hknown
    exact hs.set_inflight hargs callId

theorem resumeCall_other {callId id : UInt32} (h : resumeCall env now key s callId = some s')
    (hne : id ≠ callId) : s'.callIdInflightArgsMap id = s.callIdInflightArgsMap id := by
  rcases resumeCall_cases h with ⟨call, s₁, hs₁, rfl⟩ | ⟨inflight, rfl⟩
  · change s₁.callIdInflightArgsMap.erase callId id = _
    rw [Map.erase_of_ne _ hne, (scheduleFuncCall_callFrame hs₁).inflight]
    rfl
  · exact Map.set_of_ne _ _ hne

theorem foldlM_resumeCall_session (ids : List UInt32) :
    ∀ {s s' : SchedState}, ids.Nodup →
      (∀ id ∈ ids, ∃ args, s.callIdInflightArgsMap id = some args) → SessionInv log s →
      ids.foldlM (resumeCall env now key) s = some s' → SessionInv log s' := by
  induction ids with
  | nil =>
    intro s s' _ _ hs h
    cases h
    exact hs
  | cons id ids ih =>
    intro s s' hnodup hentries hs h
    obtain ⟨s₁, hs₁, h⟩ := foldlM_cons_eq_some.mp h
    rw [List.nodup_cons] at hnodup
    obtain ⟨args, hargs⟩ := hentries id List.mem_cons_self
    refine ih hnodup.2 (fun other hother => ?_) (resumeCall_session hs hargs hs₁) h
    rw [resumeCall_other hs₁ (ne_of_mem_of_not_mem hother hnodup.1)]
    exact hentries other (List.mem_cons_of_mem _ hother)

theorem answerGets_session {size : Bytes} (hs : SessionInv log s) :
    SessionInv log (answerGets key size s) := by
  rw [answerGets_eq]
  refine hs.of_eq _ rfl rfl rfl rfl rfl ?_
  intro out hout
  obtain ⟨request, _, rfl⟩ := List.mem_map.mp hout
  trivial

theorem dataResp_session {size : UInt32} (hs : SessionInv log s) (hinv : InflightInv s)
    (h : dataResp env now key size s = some s') : SessionInv log s' := by
  have hout : (SchedOut.dataArrived key).Traced log := trivial
  have hlength : SessionInv log { s with keyLenMap := s.keyLenMap.set key size.toNat } :=
    ⟨hs.addr, hs.delayed, hs.inflight, hs.rerun, hs.sent⟩
  have hstart : SessionInv log (answerGets key [size.toUInt8] _) :=
    answerGets_session (hlength.emit hout)
  have hframe := answerGets_callFrame key [size.toUInt8] (s.receive key size)
  have hwaiting := hframe.waiting
  change _ = s.keyCallIdMap at hwaiting
  unfold dataResp at h
  simp only [hwaiting] at h
  split at h
  · cases h
    exact hstart
  next ids hids =>
    obtain ⟨s₁, hs₁, rfl⟩ := Option.map_eq_some_iff.mp h
    have hresult := foldlM_resumeCall_session ids.elems ids.nodup (fun id hid => ?_) hstart hs₁
    · exact ⟨hresult.addr, hresult.delayed, hresult.inflight, hresult.rerun, hresult.sent⟩
    · obtain ⟨args, hargs, _⟩ := (hinv.index id key).mp ⟨ids, hids, hid⟩
      exact ⟨args, (congrFun hframe.inflight id).trans hargs⟩

/-! ## Objects sent by executors -/

theorem checkObjectArrival_session (hs : SessionInv log s) :
    SessionInv log (checkObjectArrival now bk s).1 := by
  obtain ⟨keyLenMap, _, heq, _⟩ := checkObjectArrival_spec now bk s
  rw [heq]
  refine hs.of_eq _ rfl rfl rfl rfl rfl ?_
  intro out hout
  obtain ⟨f, _, rfl⟩ := List.mem_map.mp hout
  trivial

theorem notifyPut_session {active : List Name} {respAddress : Address} {payload : Value}
    (hs : SessionInv log s) (hknown : Known log bk.session)
    (hroute : Route log bk.session respAddress) :
    SessionInv log (notifyPut env bk active respAddress payload s) := by
  rcases notifyPut_spec env bk active respAddress payload s with ⟨_, heq⟩ |
    ⟨coord, rid, id, requestId, _, heq⟩
  · rw [heq]
    exact hs
  · rw [heq]
    refine hs.of_eq _ rfl rfl rfl rfl rfl ?_
    intro out hout
    rw [List.mem_singleton.mp hout]
    intro object hobject
    rw [List.mem_singleton.mp hobject]
    exact ⟨hknown, hroute⟩

theorem sendEphemeral_session (hs : SessionInv log s) (hknown : Known log infos.sessionId)
    (hobject : infos.bucketKey.session = infos.sessionId)
    (h : sendEphemeral env now packing infos s = some s') : SessionInv log s' := by
  refine sendEphemeral_preserves (Q := SessionInv log) ?_
    (fun _ _ _ hcall h hs => submit_session hs (hcall ▸ hknown) h)
    (fun _ _ _ _ _ _ h hs => forwardCallViaHelper_session hs hknown h)
    (fun _ _ hs => checkObjectArrival_session hs) ?_ (fun _ _ hs => { hs with }) h
  · intro s₁ hs₁
    obtain ⟨m, values, rfl, _⟩ := storeObject_spec hs₁
    exact { hs with }
  · intro active payload s₁ hs₁
    rw [← hobject] at hknown
    have hroute : Route log infos.bucketKey.session
        (s₁.clientAddr infos.sessionId) := by
      rw [hobject]
      exact hs₁.clientAddr infos.sessionId
    exact notifyPut_session (hs₁.touchClientAddr infos.sessionId) hknown hroute

theorem ioThread_emit_session (hs : SessionInv log s) (hout : out.Traced log) :
    SessionInv log ((s.ioThread env).1.emit out) := by
  obtain ⟨id, hid⟩ := ioThread_state env s
  have hthread : SessionInv log (s.ioThread env).1 := by
    rw [hid]
    exact { hs with }
  exact hthread.emit hout

theorem sendToStore_session (hs : SessionInv log s)
    (h : sendToStore env executor reqId packing infos s = some s') : SessionInv log s' := by
  obtain ⟨value, _, rfl⟩ := Option.map_eq_some_iff.mp h
  have hput : SessionInv log (if packing = .other then s
      else (s.ioThread env).1.emit (.putKvs infos.sessionKey value (s.ioThread env).2)) := by
    split
    · exact hs
    · have hout : (SchedOut.putKvs infos.sessionKey value (s.ioThread env).2).Traced log := trivial
      exact ioThread_emit_session hs hout
  exact { hput with }

theorem sendToClient_session (hs : SessionInv log s)
    (h : sendToClient env packing infos s = some s') : SessionInv log s' := by
  obtain ⟨output, _, rfl⟩ := Option.map_eq_some_iff.mp h
  have hout : (SchedOut.clientResponse infos.sessionId (s.clientAddr infos.sessionId)
      { appName := s.funcAppMap.getD infos.srcFunction [], output }).Traced log :=
    hs.clientAddr infos.sessionId
  exact (hs.touchClientAddr infos.sessionId).emit hout

theorem getRequest_session {fromEpheStore : Bool} {keyName : Bytes} (hs : SessionInv log s)
    (h : getRequest env executor fromEpheStore reqId keyName s = some s') : SessionInv log s' := by
  unfold getRequest at h
  simp only at h
  split at h
  · split at h
    next size _ =>
      cases h
      have hout : (SchedOut.response executor ([3, reqId, 1] ++ Bytes.toDecimal size)).Traced
          log := trivial
      exact hs.emit hout
    · cases h
      have hout : (SchedOut.dataReq false keyName (s.ioThread env).2).Traced log := trivial
      have hsend : SessionInv log (s.sendDataReq env false keyName) :=
        ioThread_emit_session hs hout
      exact { hsend with }
  · obtain ⟨key, _, rfl⟩ := Option.map_eq_some_iff.mp h
    have hout : (SchedOut.getKvs key (s.ioThread env).2).Traced log := trivial
    have hsend : SessionInv log ((s.ioThread env).1.emit (.getKvs key (s.ioThread env).2)) :=
      ioThread_emit_session hs hout
    exact { hsend with }

theorem executorReport_session (hs : SessionInv log s) :
    SessionInv log (executorBusy executor s) ∧ SessionInv log (executorAvailable executor s) :=
  ⟨{ hs with }, { hs with }⟩

theorem executorMessage_plain_session {address type : UInt8} {fields : Bytes}
    (hs : SessionInv log s) (htype : ¬ (2 ≤ type ∧ type ≤ 4))
    (h : executorMessage env now (address :: type :: fields) s = some s') : SessionInv log s' := by
  unfold executorMessage at h
  simp only [if_neg htype] at h
  split at h
  · split at h
    · exact getRequest_session hs h
    · cases h
  · split at h
    · cases h
      exact (executorReport_session hs).1
    · split at h
      · cases h
        exact (executorReport_session hs).2
      · cases h
        exact hs

theorem executorMessage_session {address type packing : UInt8} {params : Bytes}
    (hs : SessionInv log s)
    (hinfos : ∀ infos, SendInfos.parse params = some infos → Known log infos.sessionId ∧
      infos.bucketKey.session = infos.sessionId)
    (htype : 2 ≤ type ∧ type ≤ 4)
    (h : executorMessage env now (address :: type :: reqId :: packing :: params) s = some s') :
    SessionInv log s' := by
  have hget : type ≠ 1 := by
    rintro rfl
    exact absurd htype (by decide)
  unfold executorMessage at h
  simp only [if_neg hget, if_pos htype] at h
  split at h
  · cases h
    exact hs
  next infos hparse =>
    obtain ⟨hknown, hobject⟩ := hinfos infos hparse
    split at h
    · exact sendEphemeral_session hs hknown hobject h
    · split at h
      · exact sendToStore_session hs h
      · exact sendToClient_session hs h

/-! ## The other messages -/

theorem kvsPutResp_session (hs : SessionInv log s) : SessionInv log (kvsPutResp key s) := by
  rw [kvsPutResp_eq]
  refine hs.of_eq _ rfl rfl rfl rfl rfl ?_
  intro out hout
  obtain ⟨request, _, rfl⟩ := List.mem_map.mp hout
  trivial

theorem handleUpdate_session {msg : UpdateCoordMsg} (hs : SessionInv log s)
    (h : handleUpdate now msg s = some s') : SessionInv log s' :=
  handleUpdate_preserves (Q := SessionInv log) (fun _ _ _ _ _ _ _ _ hs => { hs with }) h hs

theorem rerunCheck_session {reportEnd : Stamp} {fuel : Nat} (hs : SessionInv log s)
    (h : rerunCheck env now reportEnd fuel s = some s') : SessionInv log s' :=
  rerunCheck_keeps (K := fun item => Known log item.session) (fun _ hs => hs.rerun)
    (fun _ _ _ _ hknown hsession h hs => submit_session hs (hsession ▸ hknown) h)
    (fun _ _ hqueue hs => { hs with rerun := hqueue }) h hs

end Scheduling

end Pheromone.Scheduler
