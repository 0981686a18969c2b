import Pheromone.Cluster.Sessions
import Pheromone.Coordinator.Run

/-!
# The session of a client call

The session of a client call follows every call and every object that comes from
it, and outputs go back to the client of their session, as long as no call is
split.
-/

namespace Pheromone.Cluster

open Lib Common Coordinator Scheduler Executor

variable {env : SchedEnv} {es : List SessionEvent} {executor : ExecutorId} {lib lib' : UserLibrary}
  {message : Bytes} {other : Address}

variable {c t c' : SessionCluster} {randR : RandR} {envs : Address → SchedEnv}
  {ip address : Address} {result : CoordState × List CoordOut} {e : SessionEvent} {now : TimePoint}
  {s : SchedState}

namespace SessionCluster

/-! ## The invariant -/

structure SessionsInv (c : SessionCluster) : Prop where
  distinct : (c.sessions.map Prod.fst).Nodup
  plain : ∀ entry ∈ c.sessions, entry.1.length = 16 ∧ Plain entry.1
  calls : ∀ address msg, .call address msg ∈ c.coordSent →
    Known c.sessions msg.sessionId ∧ Route c.sessions msg.sessionId msg.respAddress
  nodes : ∀ ip, SessionInv c.sessions (c.nodes ip)
  inflight : ∀ ip, InflightInv (c.nodes ip)

theorem Initial.sessionsInv (h : c.Initial) : c.SessionsInv := by
  constructor
  · rw [h.sessions]
    exact List.nodup_nil
  · rw [h.sessions]
    simp
  · rw [h.coordSent]
    simp
  · intro ip
    constructor
    · intro session address haddress
      rw [h.addr] at haddress
      cases haddress
    · rw [h.delayed]
      simp
    · intro callId args hargs
      rw [(h.noCalls ip).inflight] at hargs
      cases hargs
    · rw [h.rerun]
      simp
    · rw [(h.noCalls ip).sent]
      simp
  · exact fun ip => (h.noCalls ip).inflightInv

theorem SessionsInv.known_plain (hc : c.SessionsInv) {session : Session}
    (h : Known c.sessions session) : session.length = 16 ∧ Plain session := by
  obtain ⟨address, haddress⟩ := h
  exact hc.plain _ haddress

theorem SessionsInv.setCoord (hc : c.SessionsInv)
    (hcalls : ∀ address msg, .call address msg ∈ result.2 →
      Known c.sessions msg.sessionId ∧ Route c.sessions msg.sessionId msg.respAddress) :
    (c.setCoord result).SessionsInv := by
  refine { hc with calls := fun address msg hmsg => ?_ }
  rcases List.mem_append.mp hmsg with hmsg | hmsg
  · exact hc.calls address msg hmsg
  · exact hcalls address msg hmsg

theorem SessionsInv.setNode (hc : c.SessionsInv) (hs : SessionInv c.sessions s)
    (hinflight : InflightInv s) : (c.setNode ip s).SessionsInv := by
  refine { hc with nodes := fun other => ?_, inflight := fun other => ?_ }
  · by_cases hip : other = ip
    · subst hip
      simpa [SessionCluster.setNode] using hs
    · simpa [SessionCluster.setNode, hip] using hc.nodes other
  · by_cases hip : other = ip
    · subst hip
      simpa [SessionCluster.setNode] using hinflight
    · simpa [SessionCluster.setNode, hip] using hc.inflight other

theorem nodeStep_inner_session {log : SessionLog} {s' : SchedState} {e : NodeEvent}
    (hs : SessionInv log s) (hinflight : InflightInv s) (he : isInner e = true)
    (h : nodeStep env s e = some s') : SessionInv log s' := by
  cases e with
  | call now msg => cases he
  | dataResp now key size => exact dataResp_session hs hinflight h
  | kvsGetResp key size =>
    cases h
    have hlength : SessionInv log { s with
        keyLenMap := s.keyLenMap.set (kvsKeyPrefix ++ kDelimiter ++ key) size.toNat } :=
      { hs with }
    exact answerGets_session hlength
  | kvsPutResp key =>
    cases h
    exact kvsPutResp_session hs
  | update now msg => exact handleUpdate_session hs h
  | delayPass clock stamp => exact delayPass_session hs h
  | rerunCheck now reportEnd fuel => exact rerunCheck_session hs h
  | executor now message =>
    match message, he, h with
    | [], _, h | [_], _, h => cases h
    | address :: type :: fields, he, h =>
      exact executorMessage_plain_session hs (of_decide_eq_true he) h

/-! ## Messages of the coordinator -/

theorem broadcast_no_call {c : CoordState} {msg : UpdateCoordMsg} {call : FunctionCall} :
    .call address call ∉ broadcast c msg := by
  intro h
  obtain ⟨entry, _, hbad⟩ := List.mem_map.mp h
  cases hbad

theorem appRegisterHandler_no_call {c : CoordState} {registration : AppRegistration}
    (h : appRegisterHandler now c registration = some result) {call : FunctionCall} :
    .call address call ∉ result.2 := by
  obtain ⟨registered, _, rfl⟩ := Option.map_eq_some_iff.mp h
  exact broadcast_no_call

theorem triggerOpHandler_no_call {c : CoordState} {request : TriggerOperationRequest}
    (h : triggerOpHandler now c request = some result) {call : FunctionCall} :
    .call address call ∉ result.2 := by
  obtain ⟨⟨response, msg, heq⟩, -⟩ := triggerOpHandler_cases h
  intro hmem
  rw [heq] at hmem
  rcases List.mem_cons.mp hmem with hbad | hmem
  · cases hbad
  · exact broadcast_no_call hmem

theorem bucketOpHandler_no_call {c : CoordState} {request : BucketOperationRequest}
    {call : FunctionCall} : .call address call ∉ (bucketOpHandler c request).2 := by
  unfold bucketOpHandler
  simp only
  split
  · split <;> simp
  · split <;> simp
  · simp

theorem SessionsInv.client (hc : c.SessionsInv) {call : FunctionCall}
    (hkept : c.SessionsKept randR (.client call))
    (h : funcCallHandler randR c.coord call = some result) :
    SessionsInv { c.setCoord result with
      sessions := c.sessions ++ [(c.sessionOf randR call, call.respAddress)] } := by
  obtain ⟨hwhole, hlength, hplain, hfresh⟩ := hkept
  have hlog : c.sessions ⊆ c.sessions ++ [(c.sessionOf randR call, call.respAddress)] :=
    List.subset_append_left _ _
  constructor
  · change ((c.sessions ++ [(c.sessionOf randR call, call.respAddress)]).map Prod.fst).Nodup
    rw [List.map_append, List.nodup_append]
    refine ⟨hc.distinct, by simp, ?_⟩
    rintro session hsession _ hnew rfl
    rw [List.map_singleton, List.mem_singleton] at hnew
    obtain ⟨entry, hentry, rfl⟩ := List.mem_map.mp hsession
    exact hfresh entry hentry hnew
  · intro entry hentry
    rcases List.mem_append.mp hentry with hentry | hentry
    · exact hc.plain entry hentry
    · rw [List.mem_singleton.mp hentry]
      exact ⟨hlength, hplain⟩
  · intro address msg hmsg
    rcases List.mem_append.mp hmsg with hmsg | hmsg
    · obtain ⟨hknown, hroute⟩ := hc.calls address msg hmsg
      exact ⟨hknown.mono hlog, hroute.mono hlog⟩
    · have heq := funcCallHandler_whole h hwhole hmsg
      have hentry : (msg.sessionId, msg.respAddress) ∈
          c.sessions ++ [(c.sessionOf randR call, call.respAddress)] := by
        rw [heq, (withSession_header randR c.coord.seed call).2]
        exact List.mem_append_right _ List.mem_cons_self
      exact ⟨⟨_, hentry⟩, Or.inr hentry⟩
  · exact fun ip => (hc.nodes ip).mono hlog
  · exact hc.inflight

theorem SessionsInv.forwarded (hc : c.SessionsInv) {calls : List SchedCall} {msg : FunctionCall}
    (hmsg : .forward calls address msg ∈ (c.nodes ip).sent) (hwhole : ¬ Splits c.coord msg)
    (h : funcCallHandler randR c.coord msg = some result) : (c.setCoord result).SessionsInv := by
  obtain ⟨hknown, hroute⟩ := (hc.nodes ip).sent _ hmsg
  have hsession : msg.sessionId ≠ [] := by
    intro hnil
    have hlength := (hc.known_plain hknown).1
    rw [hnil] at hlength
    cases hlength
  refine hc.setCoord fun address' call hcall => ?_
  have heq := funcCallHandler_whole h hwhole hcall
  rw [withSession_of_session randR c.coord.seed hsession] at heq
  rw [heq]
  exact ⟨hknown, hroute⟩

theorem SessionsInv.notified (hc : c.SessionsInv) {request : KeyNotifyRequest}
    (hrequest : .notify address request ∈ (c.nodes ip).sent)
    (h : notifyHandler randR now c.coord request = some result) :
    (c.setCoord result).SessionsInv := by
  refine hc.setCoord fun address' call hcall => ?_
  obtain ⟨object, hobject, hsession, hresp⟩ := notifyHandler_calls h hcall
  rw [hsession, hresp]
  exact (hc.nodes ip).sent _ hrequest object hobject

/-! ## Objects of functions -/

theorem SessionsInv.start_sessionId (hc : c.SessionsInv) {call : SchedCall}
    (hsent : .toExecutor executor call message ∈ (c.nodes ip).sent)
    (h : lib.start message = some lib') : lib'.sessionId = call.sessionId := by
  obtain ⟨hknown, clientAddr, rfl⟩ := (hc.nodes ip).sent _ hsent
  exact start_callMessage (hc.known_plain hknown).2 h

theorem SessionsInv.object {now : Stamp} (hc : c.SessionsInv) {call : SchedCall}
    (hsent : .toExecutor executor call message ∈ (c.nodes ip).sent)
    (hstart : lib.start message = some lib') {bucket : Bucket} {key : Key} {value : Value}
    {target : Name} {output : Bool} (hbucket : Plain bucket) (hkey : Plain key) (hne : key ≠ [])
    (htarget : Plain target) (h : nodeStep env (c.nodes ip) (.executor now (lib'.sendObject
      { objName := getLocalObjectName bucket key lib'.sessionId, value, targetFunc := target }
      output).2) = some s) : SessionInv c.sessions s := by
  have hknown := ((hc.nodes ip).sent _ hsent).1
  have hsession := hc.start_sessionId hsent hstart
  obtain ⟨hplainSession, hplainFunction⟩ := start_plain hstart
  obtain ⟨type, reqId, packing, body, htype, hmessage⟩ := sendObject_message
    { objName := getLocalObjectName bucket key lib'.sessionId, value, targetFunc := target }
    output lib'
  simp only [nodeStep, hmessage] at h
  refine executorMessage_session (hc.nodes ip) (fun infos hparse => ?_) htype h
  obtain ⟨hid, _, _, _, hobject, _⟩ :=
    parse_object hplainSession hplainFunction htarget hbucket hkey hparse
  have hlength : lib'.sessionId.length = 16 := by
    rw [hsession]
    exact (hc.known_plain hknown).1
  rw [hid, SendInfos.bucketKey, hobject, BucketKey.ofSessionKey_append _ hne hlength, hsession]
  exact ⟨hknown, rfl⟩

theorem SessionsInv.answer {now : Stamp} (hc : c.SessionsInv) {call : SchedCall}
    (hsent : .toExecutor executor call message ∈ (c.nodes ip).sent)
    (hstart : lib.start message = some lib') {bucket : Bucket} {key : Key} {value : Value}
    {target : Name} (hpersist : lib'.persistFlag ≠ 1) (hbucket : Plain bucket) (hkey : Plain key)
    (htarget : Plain target) (h : nodeStep env (c.nodes ip) (.executor now (lib'.sendObject
      { objName := getLocalObjectName bucket key lib'.sessionId, value, targetFunc := target }
      true).2) = some s) :
    s.sent = (c.nodes ip).sent ∨ ∃ address response,
      s.sent = (c.nodes ip).sent ++ [.clientResponse call.sessionId address response] ∧
        (address = [] ∨ (call.sessionId, address) ∈ c.sessions) := by
  obtain ⟨hplainSession, hplainFunction⟩ := start_plain hstart
  simp only [nodeStep, sendObject_eq, executorMessage, if_neg hpersist, if_true] at h
  rw [if_neg (by decide), if_pos (by decide)] at h
  split at h
  · cases h
    exact Or.inl rfl
  next infos hparse =>
    rw [if_neg (by decide), if_neg (by decide)] at h
    obtain ⟨output, _, rfl⟩ := Option.map_eq_some_iff.mp h
    have hid := (parse_object hplainSession hplainFunction htarget hbucket hkey hparse).1
    rw [hid, hc.start_sessionId hsent hstart]
    exact Or.inr ⟨_, _, rfl, (hc.nodes ip).clientAddr call.sessionId⟩

/-! ## Runs -/

def eventNode : SessionEvent → Option Address
  | .call _ ip _ | .object _ ip _ _ _ _ _ _ _ | .inner ip _ => some ip
  | _ => none

theorem step_nodes (h : c.step randR envs e = some c') :
    c'.nodes = c.nodes ∨ ∃ ip event s, eventNode e = some ip ∧
      nodeStep (envs ip) (c.nodes ip) event = some s ∧ c' = c.setNode ip s := by
  cases e with
  | client call | register now registration | triggerOp now request =>
    obtain ⟨result, _, rfl⟩ := Option.map_eq_some_iff.mp h
    exact Or.inl rfl
  | status msg | bucketOp request =>
    cases h
    exact Or.inl rfl
  | forwarded ip i | notified now ip i =>
    simp only [SessionCluster.step] at h
    split at h
    · obtain ⟨result, _, rfl⟩ := Option.map_eq_some_iff.mp h
      exact Or.inl rfl
    · cases h
  | call now ip i =>
    simp only [SessionCluster.step] at h
    split at h
    next msg _ =>
      split at h
      · obtain ⟨s, hs, rfl⟩ := Option.map_eq_some_iff.mp h
        exact Or.inr ⟨ip, .call now msg, s, rfl, hs, rfl⟩
      · cases h
    · cases h
  | object now ip i lib bucket key value target output =>
    simp only [SessionCluster.step] at h
    split at h
    · obtain ⟨lib', _, h⟩ := Option.bind_eq_some_iff.mp h
      obtain ⟨s, hs, rfl⟩ := Option.map_eq_some_iff.mp h
      exact Or.inr ⟨ip, _, s, rfl, hs, rfl⟩
    · cases h
  | inner ip e =>
    simp only [SessionCluster.step] at h
    split at h
    · obtain ⟨s, hs, rfl⟩ := Option.map_eq_some_iff.mp h
      exact Or.inr ⟨ip, e, s, rfl, hs, rfl⟩
    · cases h

theorem step_sent (h : c.step randR envs e = some c') (other : Address) :
    (c.nodes other).sent <+: (c'.nodes other).sent := by
  rcases step_nodes h with hsame | ⟨ip, event, s, _, hs, rfl⟩
  · rw [hsame]
  · by_cases hip : other = ip
    · subst hip
      simpa [SessionCluster.setNode] using nodeStep_sent hs
    · simp [SessionCluster.setNode, hip]

theorem step_node_other (h : c.step randR envs e = some c') (hother : eventNode e ≠ some other) :
    c'.nodes other = c.nodes other := by
  rcases step_nodes h with hsame | ⟨ip, event, s, hnode, _, rfl⟩
  · rw [hsame]
  · have hip : other ≠ ip := by
      rintro rfl
      exact hother hnode
    simp [SessionCluster.setNode, hip]

theorem run_node_other (hrun : run (step randR envs) c es = some t)
    (hother : ∀ e ∈ es, eventNode e ≠ some other) : t.nodes other = c.nodes other :=
  @run_invariant _ _ (step randR envs) (fun c' => c'.nodes other = c.nodes other)
    (fun _ e => eventNode e ≠ some other)
    (fun _ _ _ hsame hne hstep => (step_node_other hstep hne).trans hsame)
    c t es rfl (along_of_forall hother c) hrun

theorem step_sessionsInv (hc : c.SessionsInv) (hkept : c.SessionsKept randR e)
    (h : c.step randR envs e = some c') (hcalls : ∀ ip, callsMade (c'.nodes ip).sent < 2 ^ 32) :
    c'.SessionsInv := by
  have hinflight : ∀ {ip : Address} {e : NodeEvent} {s : SchedState},
      nodeStep (envs ip) (c.nodes ip) e = some s → c' = c.setNode ip s → InflightInv s := by
    intro ip e s hs heq
    have hbound := hcalls ip
    rw [heq] at hbound
    simp only [SessionCluster.setNode, Function.update_self] at hbound
    exact (nodeStep_inflight (hc.inflight ip) hs hbound).1
  cases e with
  | client call =>
    obtain ⟨result, hresult, rfl⟩ := Option.map_eq_some_iff.mp h
    exact hc.client hkept hresult
  | forwarded ip i =>
    simp only [SessionCluster.step] at h
    split at h
    next calls address msg hmsg =>
      obtain ⟨result, hresult, rfl⟩ := Option.map_eq_some_iff.mp h
      exact hc.forwarded (List.mem_of_getElem? hmsg) (hkept calls address msg hmsg) hresult
    · cases h
  | notified now ip i =>
    simp only [SessionCluster.step] at h
    split at h
    next address request hrequest =>
      obtain ⟨result, hresult, rfl⟩ := Option.map_eq_some_iff.mp h
      exact hc.notified (List.mem_of_getElem? hrequest) hresult
    · cases h
  | status msg =>
    cases h
    exact { hc with }
  | register now registration =>
    obtain ⟨result, hresult, rfl⟩ := Option.map_eq_some_iff.mp h
    exact hc.setCoord fun _ _ hcall => absurd hcall (appRegisterHandler_no_call hresult)
  | triggerOp now request =>
    obtain ⟨result, hresult, rfl⟩ := Option.map_eq_some_iff.mp h
    exact hc.setCoord fun _ _ hcall => absurd hcall (triggerOpHandler_no_call hresult)
  | bucketOp request =>
    cases h
    exact hc.setCoord fun _ _ hcall => absurd hcall bucketOpHandler_no_call
  | call now ip i =>
    simp only [SessionCluster.step] at h
    split at h
    next address msg hmsg =>
      split at h
      · obtain ⟨s, hs, rfl⟩ := Option.map_eq_some_iff.mp h
        obtain ⟨hknown, hroute⟩ := hc.calls address msg (List.mem_of_getElem? hmsg)
        have hstep : nodeStep (envs ip) (c.nodes ip) (.call now msg) = some s := hs
        exact hc.setNode (handleCall_session (hc.nodes ip) hknown hroute hs)
          (hinflight hstep rfl)
      · cases h
    · cases h
  | object now ip i lib bucket key value target output =>
    simp only [SessionCluster.step] at h
    split at h
    next executor call message hsent =>
      obtain ⟨lib', hstart, h⟩ := Option.bind_eq_some_iff.mp h
      obtain ⟨s, hs, rfl⟩ := Option.map_eq_some_iff.mp h
      obtain ⟨hbucket, hkey, hne, htarget⟩ := hkept
      exact hc.setNode (hc.object (List.mem_of_getElem? hsent) hstart hbucket hkey hne htarget hs)
        (hinflight hs rfl)
    · cases h
  | inner ip e =>
    simp only [SessionCluster.step] at h
    split at h
    next he =>
      obtain ⟨s, hs, rfl⟩ := Option.map_eq_some_iff.mp h
      exact hc.setNode (nodeStep_inner_session (hc.nodes ip) (hc.inflight ip) he hs)
        (hinflight hs rfl)
    · cases h

theorem run_callsMade (hrun : run (step randR envs) c es = some t) (ip : Address) :
    callsMade (c.nodes ip).sent ≤ callsMade (t.nodes ip).sent :=
  @run_invariant _ _ (step randR envs)
    (fun c' => callsMade (c.nodes ip).sent ≤ callsMade (c'.nodes ip).sent) (fun _ _ => True)
    (fun _ _ _ hle _ hstep => hle.trans (callsMade_le_of_isPrefix (step_sent hstep ip)))
    c t es le_rfl (along_true _ _) hrun

theorem run_sessionsInv (hcalls : ∀ ip, callsMade (t.nodes ip).sent < 2 ^ 32)
    (es : List SessionEvent) :
    ∀ {c : SessionCluster}, c.SessionsInv →
      Along (step randR envs) (SessionsKept randR) c es → run (step randR envs) c es = some t →
      t.SessionsInv := by
  induction es with
  | nil =>
    intro c hc _ hrun
    cases hrun
    exact hc
  | cons e es ih =>
    intro c hc halong hrun
    obtain ⟨c₁, hc₁, hrun⟩ := run_cons_eq_some.mp hrun
    have hbound : ∀ ip, callsMade (c₁.nodes ip).sent < 2 ^ 32 :=
      fun ip => (run_callsMade hrun ip).trans_lt (hcalls ip)
    exact ih (step_sessionsInv hc halong.1 hc₁ hbound) (halong.2 c₁ hc₁) hrun

/-! ## The result -/

/-- The sessions of the clients are kept apart. -/
structure SessionsSeparate (c : SessionCluster) : Prop where
  distinct : (c.sessions.map Prod.fst).Nodup
  /-- A session key has no address but the one of the client call of that session. -/
  addr : ∀ ip session address, (c.nodes ip).sessionClientAddrMap session = some address →
    address = [] ∨ (session, address) ∈ c.sessions
  /-- Every function is started for a client call and runs under its session. -/
  started : ∀ ip executor call message, .toExecutor executor call message ∈ (c.nodes ip).sent →
    (∃ address, (call.sessionId, address) ∈ c.sessions) ∧
      ∀ lib lib' : UserLibrary, lib.start message = some lib' → lib'.sessionId = call.sessionId
  outputs : ∀ ip session address response,
    .clientResponse session address response ∈ (c.nodes ip).sent →
      address = [] ∨ (session, address) ∈ c.sessions
  /-- The output of a function goes to the client of the session it was started for. -/
  answers : ∀ (env : SchedEnv) now ip executor call message (lib lib' : UserLibrary) bucket key
    value target s, .toExecutor executor call message ∈ (c.nodes ip).sent →
    lib.start message = some lib' → lib'.persistFlag ≠ 1 → Plain bucket → Plain key →
    Plain target → nodeStep env (c.nodes ip) (.executor now (lib'.sendObject
      { objName := getLocalObjectName bucket key lib'.sessionId, value, targetFunc := target }
      true).2) = some s →
    s.sent = (c.nodes ip).sent ∨ ∃ address response,
      s.sent = (c.nodes ip).sent ++ [.clientResponse call.sessionId address response] ∧
        (address = [] ∨ (call.sessionId, address) ∈ c.sessions)

theorem SessionsInv.separate (hc : c.SessionsInv) : c.SessionsSeparate where
  distinct := hc.distinct
  addr ip := (hc.nodes ip).addr
  started ip _ _ _ hsent :=
    ⟨((hc.nodes ip).sent _ hsent).1, fun _ _ hstart => hc.start_sessionId hsent hstart⟩
  outputs ip _ _ _ hsent := (hc.nodes ip).sent _ hsent
  answers _ _ _ _ _ _ _ _ _ _ _ _ _ hsent hstart hpersist hbucket hkey htarget h :=
    hc.answer hsent hstart hpersist hbucket hkey htarget h

/-- Every call message carries the session, the application and the response
address of the call exactly when the call is not split, and in every run that keeps
sessions no client shares a session key or receives the output of another. -/
theorem session_identity_iff_not_split (randR : RandR) (envs : Address → SchedEnv) :
    (∀ c msg, ∃ c' outs, funcCallHandler randR c msg = some (c', outs) ∧
      (withSession randR c.seed msg).1.sessionId ≠ [] ∧
      (msg.sessionId ≠ [] → (withSession randR c.seed msg).1.sessionId = msg.sessionId) ∧
      ((∀ address call, .call address call ∈ outs →
          call.sessionId = (withSession randR c.seed msg).1.sessionId ∧
            call.appName = msg.appName ∧ call.respAddress = msg.respAddress) ↔
        ¬ Splits c msg)) ∧
      ∀ c es t, c.Initial → Along (step randR envs) (SessionsKept randR) c es →
        run (step randR envs) c es = some t →
        (∀ ip, callsMade (t.nodes ip).sent < 2 ^ 32) → t.SessionsSeparate := by
  refine ⟨fun c msg => ?_, fun c es t hinit hkept hrun hcalls => ?_⟩
  · have hsome := funcCallHandler_isSome randR c msg
    obtain ⟨⟨c', outs⟩, hhandled⟩ := Option.isSome_iff_exists.mp hsome
    refine ⟨c', outs, hhandled, withSession_sessionId_ne randR c.seed msg, fun hsession => ?_, ?_⟩
    · rw [withSession_of_session randR c.seed hsession]
    · constructor
      · intro hcarries hsplit
        obtain ⟨address, call, hcall, hnil⟩ := funcCallHandler_split hhandled hsplit
        have hsame := (hcarries address call hcall).1
        rw [hnil] at hsame
        exact withSession_sessionId_ne randR c.seed msg hsame.symm
      · intro hwhole address call hcall
        rw [funcCallHandler_whole hhandled hwhole hcall]
        exact ⟨rfl, withSession_header randR c.seed msg⟩
  · exact (run_sessionsInv hcalls es hinit.sessionsInv hkept hrun).separate

def twoByTwo : SessionCluster where
  coord := { CoordState.new (Bytes.lit "10.0.0.9") 0 1 Nat.one_pos 0 with
    nodeStatusMap := (UMap.empty.set (Bytes.lit "10.0.0.1") { availExecutors := 2 }).set
      (Bytes.lit "10.0.0.2") { availExecutors := 2 } }
  coordSent := []
  nodes := fun _ => SchedState.new 0 2
  sessions := []

def clientCall (funcName : Name) (n : Nat) (session : Session) (respAddress : Address) :
    FunctionCall where
  appName := Bytes.lit "app"
  requests := List.replicate n { name := funcName, arguments := [] }
  respAddress := respAddress
  sessionId := session

def announceApp : SessionEvent :=
  .inner (Bytes.lit "10.0.0.1") (.update 0
    { appName := Bytes.lit "app"
      functions := [Bytes.lit "f", Bytes.lit "fa", Bytes.lit "fb"] })

def wholeRun : List SessionEvent :=
  [.client (clientCall (Bytes.lit "f") 2 (Bytes.lit "0123456789abcdef") (Bytes.lit "A")),
    announceApp,
    .inner (Bytes.lit "10.0.0.1") (.executor 0 [1, 7]),
    .call 0 (Bytes.lit "10.0.0.1") 0,
    .object 0 (Bytes.lit "10.0.0.1") 2 { ipNumber := [], chanId := 1 } (Bytes.lit "b")
      (Bytes.lit "k") (Bytes.lit "v") [] true]

theorem session_identity_iff_not_split_whole :
    ∃ t, run (step (fun seed => (0, seed)) fun ip => { forwardingEnv with ip }) twoByTwo wholeRun =
        some t ∧ t.SessionsSeparate ∧
      (t.nodes (Bytes.lit "10.0.0.1")).sessionClientAddrMap (Bytes.lit "0123456789abcdef") =
        some (Bytes.lit "A") := by
  have hdefined : (run (step (fun seed => (0, seed)) fun ip => { forwardingEnv with ip })
      twoByTwo wholeRun).map (fun t =>
        (callsMade (t.nodes (Bytes.lit "10.0.0.1")).sent,
          (t.nodes (Bytes.lit "10.0.0.1")).sessionClientAddrMap
            (Bytes.lit "0123456789abcdef"))) = some (2, some (Bytes.lit "A")) := by
    decide
  obtain ⟨t, ht, heq⟩ := Option.map_eq_some_iff.mp hdefined
  rw [Prod.mk.injEq] at heq
  have hinit : twoByTwo.Initial :=
    ⟨rfl, rfl, fun _ => ⟨rfl, rfl, fun _ => rfl, fun _ => rfl⟩, fun _ _ => rfl, fun _ => rfl,
      fun _ => rfl⟩
  have hkept : Along (step (fun seed => (0, seed)) fun ip => { forwardingEnv with ip })
      (SessionsKept fun seed => (0, seed)) twoByTwo wholeRun :=
    ⟨⟨by decide, by decide, by decide, by decide⟩, fun _ _ => ⟨trivial, fun _ _ => ⟨trivial,
      fun _ _ => ⟨trivial, fun _ _ => ⟨⟨by decide, by decide, by decide, by decide⟩,
        fun _ _ => trivial⟩⟩⟩⟩⟩
  refine ⟨t, ht, (session_identity_iff_not_split _ _).2 _ _ t hinit hkept ht fun ip => ?_, heq.2⟩
  by_cases hip : ip = Bytes.lit "10.0.0.1"
  · rw [hip, heq.1]
    decide
  · have hother : ∀ e ∈ wholeRun, eventNode e ≠ some ip := by
      simp [wholeRun, announceApp, eventNode, Ne.symm hip]
    have hnone : callsMade (SchedState.new 0 2).sent < 2 ^ 32 := by decide
    rw [run_node_other ht hother]
    exact hnone

/-- Two calls that are split share the empty session on a node, and the output of
the first client's function goes to the second client. -/
theorem split_calls_share_session :
    (run (step (fun seed => (0, seed)) fun ip => { forwardingEnv with ip }) twoByTwo
      [announceApp,
        .client (clientCall (Bytes.lit "fa") 3 (Bytes.lit "0123456789abcdef") (Bytes.lit "A")),
        .client (clientCall (Bytes.lit "fb") 3 (Bytes.lit "fedcba9876543210") (Bytes.lit "B")),
        .inner (Bytes.lit "10.0.0.1") (.executor 0 [1, 7]),
        .call 0 (Bytes.lit "10.0.0.1") 0,
        .call 0 (Bytes.lit "10.0.0.1") 2,
        .object 0 (Bytes.lit "10.0.0.1") 2 { ipNumber := [], chanId := 1 } (Bytes.lit "b")
          (Bytes.lit "k") (Bytes.lit "v") [] true]).map (fun t =>
      let s := t.nodes (Bytes.lit "10.0.0.1")
      (s.sessionClientAddrMap [],
        s.sent.filterMap fun out =>
          match out with
          | .toExecutor _ call _ => some call.funcName
          | .clientResponse _ address _ => some address
          | _ => none)) =
      some (some (Bytes.lit "B"), [Bytes.lit "fa", Bytes.lit "B"]) := by
  decide

end SessionCluster

end Pheromone.Cluster
