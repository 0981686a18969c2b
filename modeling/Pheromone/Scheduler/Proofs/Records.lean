import Pheromone.Scheduler.Run
import Pheromone.Scheduler.Proofs.ObjectArrival

/-!
# What scheduling leaves alone

Some maps of a scheduler are written by one kind of message each: the values that
executors packed into their messages, the requests that wait for the store or for
another node, and what the coordinator announced.  Scheduling a call, checking the
triggers of an object and waiting for one do not change them.
-/

namespace Pheromone.Scheduler

open Lib Common

variable {infos : SendInfos} {key : Bytes} {packing : Packing}

structure Records where
  keyValMap : Map Bytes Value
  keyRemoteGetMap : Map Bytes (List InflightIORequest)
  keyKsvPutMap : Map Bytes (List InflightIORequest)
  appInfoMap : Map Name AppInfo
  funcAppMap : Map Name Name
  bucketAppMap : Map Bucket Name
  appCoordMap : Map Name HandlerThread
  bucketCoordMap : Map Bucket HandlerThread

def SchedState.records (s : SchedState) : Records where
  keyValMap := s.keyValMap
  keyRemoteGetMap := s.keyRemoteGetMap
  keyKsvPutMap := s.keyKsvPutMap
  appInfoMap := s.appInfoMap
  funcAppMap := s.funcAppMap
  bucketAppMap := s.bucketAppMap
  appCoordMap := s.appCoordMap
  bucketCoordMap := s.bucketCoordMap

variable {env : SchedEnv} {now : Stamp} {s s' : SchedState}

/-! ## Scheduling -/

theorem forwardCallViaHelper_records {sessionId : Session} {appName : Name}
    {calls : List SchedCall} {args : List (List Bytes)} {argFlag : Int}
    (h : forwardCallViaHelper env sessionId appName calls args argFlag s = some s') :
    s'.records = s.records := by
  obtain ⟨address, requests, touched, keyLenMap, id, _, rfl⟩ := forwardCallViaHelper_spec h
  rfl

theorem scheduleFuncCall_records {call : SchedCall}
    (h : scheduleFuncCall env now call s = some s') : s'.records = s.records := by
  rcases scheduleFuncCall_cases h with ⟨executor, seed, cold, _, rfl⟩ | ⟨_, _, rfl⟩ |
    ⟨_, _, _, rfl⟩ | ⟨_, _, _, args, _, hforward⟩
  · obtain ⟨triggers, queue, functionExecutorMap, _, heq⟩ :=
      sendToExecutor_spec now call executor seed cold s
    rw [heq]
    rfl
  · rfl
  · rfl
  · exact forwardCallViaHelper_records hforward

theorem submit_records {callId : Option UInt32} {call : SchedCall}
    (h : submit env now callId call s = some s') : s'.records = s.records :=
  (scheduleFuncCall_records h).trans rfl

theorem invokeDirectly_records {appName : Name} {targets : USet Name}
    (h : invokeDirectly env now packing infos appName targets s = some s') :
    s'.records = s.records :=
  invokeDirectly_preserves (Q := fun s' => s'.records = s.records)
    (fun _ _ _ _ h hs => (submit_records h).trans hs)
    (fun _ _ _ _ _ h hs => (forwardCallViaHelper_records h).trans hs) h rfl

theorem delayPass_records {clock : Nat → Stamp} {stamp : Stamp}
    (h : delayPass env clock stamp s = some s') : s'.records = s.records :=
  delayPass_preserves (Q := fun s' => s'.records = s.records)
    (fun _ _ _ _ h hs => (scheduleFuncCall_records h).trans hs)
    (fun _ _ _ _ _ _ _ h hs => (forwardCallViaHelper_records h).trans hs)
    (fun _ _ hs => hs) h rfl

theorem rerunCheck_records {reportEnd : Stamp} {fuel : Nat}
    (h : rerunCheck env now reportEnd fuel s = some s') : s'.records = s.records :=
  rerunCheck_preserves (Q := fun s' => s'.records = s.records)
    (fun _ _ _ hsubmit hs => (submit_records hsubmit).trans hs) (fun _ _ hs => hs) h rfl

/-! ## Objects -/

theorem notifyPut_records (env : SchedEnv) (bk : BucketKey) (activeTriggers : List Name)
    (respAddress : Address) (payload : Value) (s : SchedState) :
    (notifyPut env bk activeTriggers respAddress payload s).records = s.records := by
  obtain ⟨rid, id, outs, heq, _⟩ := notifyPut_state env bk activeTriggers respAddress payload s
  rw [heq]
  rfl

theorem putObject_records (h : putObject env now packing infos s = some s') :
    s'.records = s.records :=
  putObject_preserves (Q := fun s' => s'.records = s.records)
    (fun _ _ _ _ h hs => (submit_records h).trans hs)
    (fun _ _ _ hs => (notifyPut_records ..).trans hs) (fun _ _ hs => hs) h rfl

theorem sendEphemeral_records (h : sendEphemeral env now packing infos s = some s') :
    ∃ s₁, storeObject packing infos s = some s₁ ∧ s'.records = s₁.records := by
  obtain ⟨s₁, hstore, hcases⟩ := sendEphemeral_cases h
  refine ⟨s₁, hstore, ?_⟩
  rcases hcases with ⟨targets, _, hdirect⟩ | ⟨_, _, hput⟩ | ⟨_, _, rfl⟩
  · exact invokeDirectly_records hdirect
  · exact putObject_records hput
  · rfl

theorem ioThread_records (env : SchedEnv) (s : SchedState) :
    (s.ioThread env).1.records = s.records := by
  obtain ⟨id, hid⟩ := ioThread_state env s
  rw [hid]
  rfl

theorem getRequest_records {executor : ExecutorId} {fromEpheStore : Bool} {reqId : UInt8}
    (h : getRequest env executor fromEpheStore reqId key s = some s') :
    s'.records = s.records ∨ s'.records = { s.records with
      keyRemoteGetMap := s.keyRemoteGetMap.set key
        (s.keyRemoteGetMap.getD key [] ++ [{ executorId := executor, reqId }]) } := by
  obtain ⟨id, hid⟩ := ioThread_state env s
  unfold getRequest SchedState.sendDataReq at h
  simp only [hid] at h
  split at h
  · split at h
    · cases h
      exact Or.inl rfl
    · cases h
      exact Or.inr rfl
  · obtain ⟨key', _, rfl⟩ := Option.map_eq_some_iff.mp h
    exact Or.inr rfl

/-! ## Calls that wait for objects -/

theorem handleCall_records {call : FunctionCall} (h : handleCall env now call s = some s') :
    s'.records = s.records :=
  handleCall_preserves (Q := fun s' => s'.records = s.records) (fun _ _ _ _ _ _ _ hs => hs)
    (fun _ _ _ hs => hs) (fun _ _ _ _ h hs => (submit_records h).trans hs) h rfl

theorem resumeCall_records {callId : UInt32} (h : resumeCall env now key s callId = some s') :
    s'.records = s.records := by
  rcases resumeCall_cases h with ⟨call, s₁, hs₁, rfl⟩ | ⟨inflight, rfl⟩
  · exact (submit_records hs₁ :)
  · rfl

theorem answerGets_records (key size : Bytes) (s : SchedState) :
    (answerGets key size s).records =
      { s.records with keyRemoteGetMap := s.keyRemoteGetMap.erase key } := by
  rw [answerGets_eq]
  rfl

theorem dataResp_records {size : UInt32} (h : dataResp env now key size s = some s') :
    s'.records = { s.records with keyRemoteGetMap := s.keyRemoteGetMap.erase key } :=
  dataResp_loop (Q := fun s' : SchedState => s'.records =
      { s.records with keyRemoteGetMap := s.keyRemoteGetMap.erase key })
    (fun _ _ _ hstep hs => (resumeCall_records hstep).trans hs) (fun _ _ hs => hs) h
    (answerGets_records key [size.toUInt8] _)

end Pheromone.Scheduler
