import Pheromone.Lib.Transition
import Pheromone.Scheduler.Objects

/-!
# What scheduling does not read

A call is scheduled without a look at the triggers, the reruns or the dependencies: they can
be replaced before or after it.
-/

namespace Pheromone.Scheduler

open Lib Common

/-- Other triggers, reruns and applications. -/
structure Reframing where
  triggers : Shared Bucket Trigger → Shared Bucket Trigger := id
  queue : List RerunCheckQueueItem → List RerunCheckQueueItem := id
  timeouts : Map Name (List RerunTriggerTimeout) → Map Name (List RerunTriggerTimeout) := id
  apps : Map Name AppInfo → Map Name AppInfo := id

namespace Reframing

variable (r : Reframing) (env : SchedEnv)

def apply (s : SchedState) : SchedState :=
  { s with
    bucketTriggersMap := r.triggers s.bucketTriggersMap
    rerunCheckQueue := r.queue s.rerunCheckQueue
    funcTriggerTimeoutMap := r.timeouts s.funcTriggerTimeoutMap
    appInfoMap := r.apps s.appInfoMap }

/-! ## Forwarding -/

theorem keyArguments_apply (argFlag : Int) (args : List (Bytes × Bytes × Bytes))
    (s : SchedState) :
    keyArguments env argFlag args (r.apply s) =
      (r.apply (keyArguments env argFlag args s).1, (keyArguments env argFlag args s).2) := by
  induction args generalizing s with
  | nil => rfl
  | cons arg args ih =>
    have hserver : (r.apply s).getDataServerAddr env false =
        (r.apply (s.getDataServerAddr env false).1, (s.getDataServerAddr env false).2) := rfl
    simp only [keyArguments, hserver, ih]

theorem keyRequests_apply (argFlag : Int)
    (reqs : List (Name × List (Bytes × Bytes × Bytes))) (s : SchedState) :
    keyRequests env argFlag reqs (r.apply s) =
      (r.apply (keyRequests env argFlag reqs s).1, (keyRequests env argFlag reqs s).2) := by
  induction reqs generalizing s with
  | nil => rfl
  | cons req reqs ih => simp only [keyRequests, keyArguments_apply, ih]

theorem sendForward_apply (sessionId : Session) (appName : Name) (calls : List SchedCall)
    (requests : List FunctionRequest) (s : SchedState) :
    sendForward env sessionId appName calls requests (r.apply s) =
      (sendForward env sessionId appName calls requests s).map r.apply := by
  unfold sendForward
  rw [Option.map_map]
  rfl

theorem forwardCallViaHelper_apply (sessionId : Session) (appName : Name)
    (calls : List SchedCall) (args : List (List Bytes)) (argFlag : Int) (s : SchedState) :
    forwardCallViaHelper env sessionId appName calls args argFlag (r.apply s) =
      (forwardCallViaHelper env sessionId appName calls args argFlag s).map r.apply := by
  unfold forwardCallViaHelper
  simp only [keyRequests_apply]
  split
  · cases hparts : args.mapM triples with
    | none => rfl
    | some parts =>
      cases htotal : totalDataSize parts with
      | none => simp only [Option.bind_eq_bind, Option.bind_some, htotal, Option.bind_none,
          Option.map_none]
      | some total =>
        simp only [Option.bind_eq_bind, Option.bind_some, htotal]
        split
        · exact sendForward_apply r env _ _ _ _ { s with keyLenMap := _ }
        · exact sendForward_apply ..
  · exact sendForward_apply ..

/-! ## Scheduling -/

/-- The reruns that a call is watched for are replaced alike. -/
def Keeps : Prop :=
  ∀ now call executor seed cold s,
    sendToExecutor now call executor seed cold (r.apply s) =
      r.apply (sendToExecutor now call executor seed cold s)

variable {r}

theorem scheduleFuncCall_apply (hr : r.Keeps) (now : Stamp) (call : SchedCall)
    (s : SchedState) :
    scheduleFuncCall env now call (r.apply s) =
      (scheduleFuncCall env now call s).map r.apply := by
  have hpick : pickExecutor env call.funcName (r.apply s) =
      pickExecutor env call.funcName s := rfl
  unfold scheduleFuncCall
  rw [hpick]
  cases pickExecutor env call.funcName s with
  | some picked => exact congrArg some (hr now call picked.1 picked.2.1 picked.2.2 s)
  | none =>
    simp only
    split
    · rfl
    · split
      · rfl
      · simp only [forwardFrom, forwardCallViaHelper_apply, Option.bind_eq_bind,
          Option.map_bind]
        rfl

theorem submit_apply (hr : r.Keeps) (now : Stamp) (callId : Option UInt32) (call : SchedCall)
    (s : SchedState) :
    submit env now callId call (r.apply s) = (submit env now callId call s).map r.apply :=
  scheduleFuncCall_apply env hr now call (s.emit (.submit callId call))

theorem batchForward_apply (hr : r.Keeps) (now : Stamp) (sessionId : Session) (appName : Name)
    (targets : List Name) (args : List Bytes × Int) (s : SchedState) :
    batchForward env now sessionId appName targets args (r.apply s) =
      (batchForward env now sessionId appName targets args s).map r.apply := by
  have havail : availExecutorNum (r.apply s) = availExecutorNum s := rfl
  unfold batchForward
  simp only [havail]
  rw [← foldlM_map r.apply fun s call => (submit_apply env hr now none call s).symm]
  split
  · simp only [Option.bind_eq_bind, Option.bind_map, Option.map_bind]
    refine Option.bind_congr fun s₁ _ => ?_
    split
    · rfl
    · exact forwardCallViaHelper_apply ..
  · rfl

theorem invokeDirectly_apply (hr : r.Keeps) (now : Stamp) (packing : Packing)
    (infos : SendInfos) (appName : Name) (targets : USet Name) (s : SchedState) :
    invokeDirectly env now packing infos appName targets (r.apply s) =
      (invokeDirectly env now packing infos appName targets s).map r.apply := by
  unfold invokeDirectly
  simp only
  split
  · exact batchForward_apply env hr ..
  · split
    · exact submit_apply env hr ..
    · rfl

end Reframing

end Pheromone.Scheduler
