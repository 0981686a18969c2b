import Pheromone.Scheduler.Proofs.ExecutorCalls
import Pheromone.Scheduler.Proofs.ObjectArrival
import Pheromone.Scheduler.Run

/-!
# What an event does to executors

Apart from the reports of executors, an event of a scheduler reaches its executors only
through `schedule_func_call`.  This is said once, for every event; an invariant of the
executors then needs to be checked for `schedule_func_call` and for the reports.
-/

namespace Pheromone.Scheduler

open Lib Common Executor

variable {e : NodeEvent} {executor : ExecutorId} {infos : SendInfos} {packing : Packing}
  {reqId : UInt8}

structure SameExecutors (s s' : SchedState) : Prop where
  status : s'.executorStatusMap = s.executorStatusMap
  functions : s'.functionExecutorMap = s.functionExecutorMap
  calls : ∀ id, callsTo id s'.sent = callsTo id s.sent

/-- `s'` comes from `s` by calls of `schedule_func_call`, and by changes that are not
about executors. -/
inductive Schedules (env : SchedEnv) : SchedState → SchedState → Prop
  | same {s s' : SchedState} (h : SameExecutors s s') : Schedules env s s'
  | call {now : Stamp} {call : SchedCall} {s s' : SchedState}
      (h : scheduleFuncCall env now call s = some s') : Schedules env s s'
  | trans {s s₁ s' : SchedState} (h₁ : Schedules env s s₁) (h₂ : Schedules env s₁ s') :
      Schedules env s s'

variable {env : SchedEnv} {now : Stamp} {s s' : SchedState}

theorem Schedules.preserves {Q : SchedState → Prop}
    (hsame : ∀ s s', SameExecutors s s' → Q s → Q s')
    (hcall : ∀ now call s s', scheduleFuncCall env now call s = some s' → Q s → Q s')
    (h : Schedules env s s') (hs : Q s) : Q s' := by
  induction h with
  | same h => exact hsame _ _ h hs
  | call h => exact hcall _ _ _ _ h hs
  | trans _ _ ih₁ ih₂ => exact ih₂ (ih₁ hs)

theorem SameExecutors.of_sent (hstatus : s'.executorStatusMap = s.executorStatusMap)
    (hfunctions : s'.functionExecutorMap = s.functionExecutorMap)
    (hsent : ∃ outs, s'.sent = s.sent ++ outs ∧ ∀ id, callsTo id outs = []) :
    SameExecutors s s' := by
  obtain ⟨outs, hsent, hnone⟩ := hsent
  refine ⟨hstatus, hfunctions, fun id => ?_⟩
  rw [hsent, callsTo_append, hnone, List.append_nil]

theorem Schedules.of_eq (hstatus : s'.executorStatusMap = s.executorStatusMap)
    (hfunctions : s'.functionExecutorMap = s.functionExecutorMap)
    (hsent : ∃ outs, s'.sent = s.sent ++ outs ∧ ∀ id, callsTo id outs = []) :
    Schedules env s s' :=
  .same (.of_sent hstatus hfunctions hsent)

theorem Schedules.of_same_sent (hstatus : s'.executorStatusMap = s.executorStatusMap)
    (hfunctions : s'.functionExecutorMap = s.functionExecutorMap) (hsent : s'.sent = s.sent) :
    Schedules env s s' :=
  .of_eq hstatus hfunctions ⟨[], hsent.trans (List.append_nil _).symm, fun _ => rfl⟩

theorem Schedules.refl (s : SchedState) : Schedules env s s := .of_same_sent rfl rfl rfl

theorem Schedules.emit (h : Schedules env s s') (out : SchedOut)
    (hout : ∀ id, callsTo id [out] = []) : Schedules env s (s'.emit out) :=
  h.trans (.of_eq rfl rfl ⟨[out], rfl, hout⟩)

theorem callsTo_map {α : Type} {f : α → SchedOut} (hf : ∀ id a, callsTo id [f a] = [])
    (id : ExecutorId) (l : List α) : callsTo id (l.map f) = [] := by
  induction l with
  | nil => rfl
  | cons a l ih =>
    rw [List.map_cons, ← List.singleton_append, callsTo_append, hf, ih, List.nil_append]

/-! ## Functions -/

theorem forwardCallViaHelper_same {sessionId : Session} {appName : Name}
    {calls : List SchedCall} {args : List (List Bytes)} {argFlag : Int}
    (h : forwardCallViaHelper env sessionId appName calls args argFlag s = some s') :
    SameExecutors s s' := by
  obtain ⟨_, _, _, _, _, _, rfl⟩ := forwardCallViaHelper_spec h
  exact .of_sent rfl rfl ⟨_, rfl, fun _ => rfl⟩

theorem submit_schedules {callId : Option UInt32} {call : SchedCall}
    (h : submit env now callId call s = some s') : Schedules env s s' :=
  ((Schedules.refl s).emit _ fun _ => rfl).trans (.call h)

theorem notifyPut_schedules (env : SchedEnv) (bk : BucketKey) (activeTriggers : List Name)
    (respAddress : Address) (payload : Value) (s : SchedState) :
    Schedules env s (notifyPut env bk activeTriggers respAddress payload s) := by
  rcases notifyPut_spec env bk activeTriggers respAddress payload s with ⟨_, heq⟩ |
    ⟨coord, rid, id, requestId, _, heq⟩
  · rw [heq]
    exact .refl s
  · rw [heq]
    exact .of_eq rfl rfl ⟨_, rfl, fun _ => rfl⟩

theorem checkObjectArrival_schedules (env : SchedEnv) (now : Stamp) (bk : BucketKey)
    (s : SchedState) : Schedules env s (checkObjectArrival now bk s).1 := by
  obtain ⟨_, _, heq, _⟩ := checkObjectArrival_spec now bk s
  rw [heq]
  exact .of_eq rfl rfl ⟨_, rfl, fun id => callsTo_map (fun _ _ => rfl) id _⟩

theorem Schedules.withCallId (h : Schedules env s s') (callId : UInt32) :
    Schedules env s { s' with callId := callId } :=
  h.trans (.of_same_sent rfl rfl rfl)

theorem sendEphemeral_schedules (h : sendEphemeral env now packing infos s = some s') :
    Schedules env s s' := by
  refine sendEphemeral_preserves (Q := Schedules env s) ?_
    (fun _ _ _ _ h hs => hs.trans (submit_schedules h))
    (fun _ _ _ _ _ _ h hs => hs.trans (.same (forwardCallViaHelper_same h)))
    (fun _ _ hs => hs.trans (checkObjectArrival_schedules ..)) ?_ (fun n _ hs => hs.withCallId n) h
  · intro s₁ hstore
    obtain ⟨_, _, rfl, _⟩ := storeObject_spec hstore
    exact .of_same_sent rfl rfl rfl
  · intro active payload s₁ hs
    have htouch : Schedules env s (s₁.touchClientAddr infos.sessionId) :=
      hs.trans (.of_same_sent rfl rfl rfl)
    exact htouch.trans (notifyPut_schedules ..)

theorem ioThread_emit_schedules (env : SchedEnv) (s : SchedState) {out : SchedOut}
    (hout : ∀ id, callsTo id [out] = []) :
    Schedules env s ((s.ioThread env).1.emit out) := by
  obtain ⟨id, hid⟩ := ioThread_state env s
  rw [hid]
  exact .of_eq rfl rfl ⟨[out], rfl, hout⟩

theorem getRequest_schedules {fromEpheStore : Bool} {key : Bytes}
    (h : getRequest env executor fromEpheStore reqId key s = some s') : Schedules env s s' := by
  unfold getRequest SchedState.sendDataReq at h
  simp only at h
  split at h
  · split at h
    · cases h
      exact .of_eq rfl rfl ⟨_, rfl, fun _ => rfl⟩
    · cases h
      exact (ioThread_emit_schedules env s fun _ => rfl).trans (.of_same_sent rfl rfl rfl)
  · obtain ⟨key', _, rfl⟩ := Option.map_eq_some_iff.mp h
    exact (ioThread_emit_schedules env s fun _ => rfl).trans (.of_same_sent rfl rfl rfl)

theorem sendToStore_schedules (h : sendToStore env executor reqId packing infos s = some s') :
    Schedules env s s' := by
  obtain ⟨value, _, rfl⟩ := Option.map_eq_some_iff.mp h
  simp only
  split
  · exact .of_same_sent rfl rfl rfl
  · exact (ioThread_emit_schedules env s fun _ => rfl).trans (.of_same_sent rfl rfl rfl)

theorem Schedules.of_outs (hstatus : s'.executorStatusMap = s.executorStatusMap)
    (hfunctions : s'.functionExecutorMap = s.functionExecutorMap) {outs : List SchedOut}
    (hsent : s'.sent = s.sent ++ outs) (houts : ∀ out ∈ outs, out.IsData) :
    Schedules env s s' := by
  refine .of_eq hstatus hfunctions ⟨outs, hsent, fun id => ?_⟩
  unfold callsTo
  rw [List.filterMap_eq_nil_iff]
  intro out hout
  have hother := (houts out hout).not_isDispatch
  cases out with
  | toExecutor executor call message => exact absurd trivial hother
  | _ => rfl

theorem answerGets_schedules (env : SchedEnv) (key size : Bytes) (s : SchedState) :
    Schedules env s (answerGets key size s) := by
  rw [answerGets_eq]
  exact .of_eq rfl rfl ⟨_, rfl, fun id => callsTo_map (fun _ _ => rfl) id _⟩

/-! ## Events -/

def reportOf : NodeEvent → Option (ExecutorId × Report)
  | .executor _ (address :: 6 :: _) => some (address - 1, .busy)
  | .executor _ (address :: 7 :: _) => some (address - 1, .available)
  | _ => none

theorem nodeStep_available {e : NodeEvent} {id : ExecutorId}
    (h : reportOf e = some (id, .available)) (env : SchedEnv) (s : SchedState) :
    nodeStep env s e = some (executorAvailable id s) := by
  unfold reportOf at h
  split at h
  · cases h
  · cases h
    rfl
  · cases h

theorem nodeStep_schedules (h : nodeStep env s e = some s') :
    Schedules env s s' ∨
      (∃ id, reportOf e = some (id, .busy) ∧ s' = executorBusy id s) ∨
      ∃ id, reportOf e = some (id, .available) ∧ s' = executorAvailable id s := by
  cases e with
  | executor now message =>
    rcases executorMessage_cases h with ⟨_, _, _, _, _, _, h⟩ | ⟨_, _, _, _, infos, _, _, h⟩ |
      ⟨_, _, _, _, infos, _, _, h⟩ | ⟨packing, infos, h⟩ | ⟨address, _, rfl, rfl⟩ |
      ⟨address, _, rfl, rfl⟩ | rfl
    · exact Or.inl (getRequest_schedules h)
    · exact Or.inl (sendEphemeral_schedules h)
    · exact Or.inl (sendToStore_schedules h)
    · obtain ⟨output, _, rfl⟩ := Option.map_eq_some_iff.mp h
      exact Or.inl (.of_eq rfl rfl ⟨_, rfl, fun _ => rfl⟩)
    · exact Or.inr (Or.inl ⟨address - 1, rfl, rfl⟩)
    · exact Or.inr (Or.inr ⟨address - 1, rfl, rfl⟩)
    · exact Or.inl (.refl s')
  | call now msg =>
    exact Or.inl (handleCall_preserves (Q := Schedules env s)
      (fun _ _ _ _ _ _ houts hs => hs.trans (.of_outs rfl rfl rfl houts))
      (fun _ _ _ hs => hs.trans (.of_same_sent rfl rfl rfl))
      (fun _ _ _ _ h hs => hs.trans (submit_schedules h)) h (.refl s))
  | dataResp now key size =>
    exact Or.inl (dataResp_preserves (Q := Schedules env s)
      (fun _ _ _ _ _ _ houts hs => hs.trans (.of_outs rfl rfl rfl houts))
      (fun _ _ _ _ h hs => hs.trans (submit_schedules h)) h (.refl s))
  | kvsGetResp key size =>
    cases h
    refine Or.inl (Schedules.trans ?_ (answerGets_schedules env _ _ _))
    exact .of_same_sent rfl rfl rfl
  | kvsPutResp key =>
    cases h
    rw [kvsPutResp_eq]
    exact Or.inl (.of_eq rfl rfl ⟨_, rfl, fun id => callsTo_map (fun _ _ => rfl) id _⟩)
  | update now msg =>
    exact Or.inl (handleUpdate_preserves (Q := Schedules env s)
      (fun _ _ _ _ _ _ _ _ hs => hs.trans (.of_same_sent rfl rfl rfl)) h (.refl s))
  | delayPass clock stamp =>
    exact Or.inl (delayPass_preserves (Q := Schedules env s)
      (fun _ _ _ _ h hs => hs.trans (.call h))
      (fun _ _ _ _ _ _ _ h hs => hs.trans (.same (forwardCallViaHelper_same h)))
      (fun _ _ hs => hs.trans (.of_same_sent rfl rfl rfl)) h (.refl s))
  | rerunCheck now reportEnd fuel =>
    exact Or.inl (rerunCheck_preserves (Q := Schedules env s)
      (fun _ _ _ h hs => hs.trans (submit_schedules h))
      (fun _ _ hs => hs.trans (.of_same_sent rfl rfl rfl)) h (.refl s))

end Pheromone.Scheduler
