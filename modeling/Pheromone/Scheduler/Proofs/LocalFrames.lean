import Pheromone.Scheduler.Run
import Pheromone.Scheduler.Proofs.CallFrames

/-!
# Messages that bring no call and no remote object

Whatever an executor sends, whatever the coordinator announces, and the passes of
the main loop leave the waiting calls alone.  They may store objects and skip
call numbers.
-/

namespace Pheromone.Scheduler

open Lib Common

variable {s s' : SchedState} {env : SchedEnv} {now : Stamp} {infos : SendInfos} {packing : Packing}

/-- The step may set the lengths and the values of objects before a `SkipFrame`. -/
def LocalFrame (s s' : SchedState) : Prop :=
  ∃ m values, (∀ key, (∃ size, s.keyLenMap key = some size) → ∃ size, m key = some size) ∧
    SkipFrame { s with keyLenMap := m, keyValMap := values } s'

theorem SkipFrame.localFrame (h : SkipFrame s s') : LocalFrame s s' :=
  ⟨s.keyLenMap, s.keyValMap, fun _ h => h, h⟩

theorem CallFrame.localFrame (h : CallFrame s s') : LocalFrame s s' :=
  h.skipFrame.localFrame

theorem CallFrame.of_eq (hid : s'.callId = s.callId)
    (hinflight : s'.callIdInflightArgsMap = s.callIdInflightArgsMap)
    (hwaiting : s'.keyCallIdMap = s.keyCallIdMap) (hkeyLen : s'.keyLenMap = s.keyLenMap)
    (hsent : s'.sent = s.sent) : CallFrame s s' := by
  refine ⟨hid, hinflight, hwaiting, fun key size h => ?_, [], ?_, by simp⟩
  · rw [hkeyLen]
    exact h
  · rw [hsent, List.append_nil]

/-! ## Executors -/

theorem sendEphemeral_localFrame (h : sendEphemeral env now packing infos s = some s') :
    LocalFrame s s' := by
  obtain ⟨s₁, hstore, hskip⟩ := sendEphemeral_skipFrame h
  obtain ⟨m, values, rfl, hm⟩ := storeObject_spec hstore
  exact ⟨m, values, hm, hskip⟩

theorem ioThread_emit_callFrame (env : SchedEnv) (s : SchedState) {out : SchedOut}
    (hout : out.Neutral) : CallFrame s ((s.ioThread env).1.emit out) := by
  obtain ⟨id, hid⟩ := ioThread_state env s
  have hthread : CallFrame s (s.ioThread env).1 := by
    rw [hid]
    exact CallFrame.of_eq rfl rfl rfl rfl rfl
  exact hthread.trans (emit_callFrame out hout _)

theorem getRequest_callFrame {executor : ExecutorId} {fromEpheStore : Bool} {reqId : UInt8}
    {keyName : Bytes} (h : getRequest env executor fromEpheStore reqId keyName s = some s') :
    CallFrame s s' := by
  unfold getRequest at h
  simp only at h
  split at h
  · split at h
    next size _ =>
      cases h
      exact emit_callFrame (.response executor ([3, reqId, 1] ++ Bytes.toDecimal size)) trivial s
    · cases h
      have hsend : CallFrame s (s.sendDataReq env false keyName) :=
        ioThread_emit_callFrame env s trivial
      exact hsend.trans (CallFrame.of_eq rfl rfl rfl rfl rfl)
  · obtain ⟨key, _, rfl⟩ := Option.map_eq_some_iff.mp h
    have hsend : CallFrame s ((s.ioThread env).1.emit (.getKvs key (s.ioThread env).2)) :=
      ioThread_emit_callFrame env s trivial
    exact hsend.trans (CallFrame.of_eq rfl rfl rfl rfl rfl)

theorem sendToStore_callFrame {executor : ExecutorId} {reqId : UInt8}
    (h : sendToStore env executor reqId packing infos s = some s') : CallFrame s s' := by
  obtain ⟨value, _, rfl⟩ := Option.map_eq_some_iff.mp h
  have hput : CallFrame s (if packing = .other then s
      else (s.ioThread env).1.emit (.putKvs infos.sessionKey value (s.ioThread env).2)) := by
    split
    · exact CallFrame.refl s
    · exact ioThread_emit_callFrame env s trivial
  exact hput.trans (CallFrame.of_eq rfl rfl rfl rfl rfl)

theorem sendToClient_callFrame (h : sendToClient env packing infos s = some s') :
    CallFrame s s' := by
  obtain ⟨output, _, rfl⟩ := Option.map_eq_some_iff.mp h
  have htouch : CallFrame s (s.touchClientAddr infos.sessionId) :=
    CallFrame.of_eq rfl rfl rfl rfl rfl
  exact htouch.trans (emit_callFrame (.clientResponse infos.sessionId _ _) trivial _)

theorem executorBusy_callFrame (executor : ExecutorId) (s : SchedState) :
    CallFrame s (executorBusy executor s) :=
  CallFrame.of_eq rfl rfl rfl rfl rfl

theorem executorAvailable_callFrame (executor : ExecutorId) (s : SchedState) :
    CallFrame s (executorAvailable executor s) :=
  CallFrame.of_eq rfl rfl rfl rfl rfl

theorem executorMessage_localFrame {message : Bytes}
    (h : executorMessage env now message s = some s') : LocalFrame s s' := by
  rcases executorMessage_cases h with ⟨_, _, _, _, _, _, h⟩ | ⟨_, _, _, _, infos, _, _, h⟩ |
    ⟨_, _, _, _, infos, _, _, h⟩ | ⟨packing, infos, h⟩ | ⟨address, _, _, rfl⟩ |
    ⟨address, _, _, rfl⟩ | rfl
  · exact (getRequest_callFrame h).localFrame
  · exact sendEphemeral_localFrame h
  · exact (sendToStore_callFrame h).localFrame
  · exact (sendToClient_callFrame h).localFrame
  · exact (executorBusy_callFrame (address - 1) s).localFrame
  · exact (executorAvailable_callFrame (address - 1) s).localFrame
  · exact (CallFrame.refl s').localFrame

/-! ## The remote store -/

theorem answerGets_callFrame (key size : Bytes) (s : SchedState) :
    CallFrame s (answerGets key size s) := by
  rw [answerGets_eq]
  refine ⟨rfl, rfl, rfl, fun _ _ h => h, _, rfl, ?_⟩
  intro out hout
  obtain ⟨request, _, rfl⟩ := List.mem_map.mp hout
  trivial

theorem kvsGetResp_localFrame (key : Bytes) (size : UInt32) (s : SchedState) :
    LocalFrame s (kvsGetResp key size s) :=
  ⟨_, s.keyValMap, set_present (kvsKeyPrefix ++ kDelimiter ++ key) size.toNat,
    (answerGets_callFrame _ _ _).skipFrame⟩

theorem kvsPutResp_callFrame (key : Bytes) (s : SchedState) :
    CallFrame s (kvsPutResp key s) := by
  rw [kvsPutResp_eq]
  refine ⟨rfl, rfl, rfl, fun _ _ h => h, _, rfl, ?_⟩
  intro out hout
  obtain ⟨request, _, rfl⟩ := List.mem_map.mp hout
  trivial

/-! ## Coordinator updates -/

theorem handleUpdate_callFrame {msg : UpdateCoordMsg} (h : handleUpdate now msg s = some s') :
    CallFrame s s' :=
  handleUpdate_preserves (Q := CallFrame s)
    (fun _ _ _ _ _ _ _ _ hs => hs.trans (CallFrame.of_eq rfl rfl rfl rfl rfl)) h
    (CallFrame.refl s)

/-! ## The rerun check -/

theorem rerunCheck_callFrame {reportEnd : Stamp} (fuel : Nat)
    (h : rerunCheck env now reportEnd fuel s = some s') : CallFrame s s' :=
  rerunCheck_preserves (Q := CallFrame s)
    (fun _ _ _ hsubmit hs => hs.trans (submit_callFrame hsubmit))
    (fun _ _ hs => hs.trans (CallFrame.of_eq rfl rfl rfl rfl rfl)) h (CallFrame.refl s)

/-! ## All of them -/

def NodeEvent.IsLocal : NodeEvent → Prop
  | .call _ _ | .dataResp _ _ _ => False
  | _ => True

theorem nodeStep_localFrame {e : NodeEvent} (h : nodeStep env s e = some s') (he : e.IsLocal) :
    LocalFrame s s' := by
  cases e with
  | executor now message => exact executorMessage_localFrame h
  | call now msg => exact he.elim
  | dataResp now key size => exact he.elim
  | kvsGetResp key size =>
    cases h
    exact kvsGetResp_localFrame key size s
  | kvsPutResp key =>
    cases h
    exact (kvsPutResp_callFrame key s).localFrame
  | update now msg => exact (handleUpdate_callFrame h).localFrame
  | delayPass clock stamp => exact (delayPass_callFrame h).localFrame
  | rerunCheck now reportEnd fuel => exact (rerunCheck_callFrame fuel h).localFrame

theorem LocalFrame.sent (h : LocalFrame s s') : s.sent <+: s'.sent := by
  obtain ⟨m, values, _, n, s₁, hframe, _, rfl⟩ := h
  obtain ⟨outs, hsent, _⟩ := hframe.sent
  change s.sent <+: s₁.sent
  rw [hsent]
  exact List.prefix_append _ _

end Pheromone.Scheduler
