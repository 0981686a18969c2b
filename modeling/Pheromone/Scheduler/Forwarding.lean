import Pheromone.Scheduler.Run

/-!
# The calls of `forward_call_via_helper`

The handlers with the log of every argument vector that is passed to
`forward_call_via_helper` and of the place that passes it.  The log changes nothing: what a
handler returns with it is what it returns without it.
-/

namespace Pheromone.Scheduler

open Lib Common

variable {sessionId : Session} {appName : Name}

abbrev Forwarding (α : Type) := Logged ForwardedArgs α

variable {α : Type} {env : SchedEnv} {now : Stamp} {s : SchedState} {infos : SendInfos}
  {packing : Packing}

@[simp] theorem result_noForward (x : Option α) : (noForward x : Forwarding α).result = x := rfl

@[simp] theorem result_forwardFrom {site : ForwardSite} {calls : List SchedCall}
    {args : List (List Bytes)} {argFlag : Int} :
    (forwardFrom site env sessionId appName calls args argFlag s : Forwarding SchedState).result =
      forwardFrom site env sessionId appName calls args argFlag s := rfl

@[simp] theorem result_scheduleFuncCall {call : SchedCall} :
    (scheduleFuncCall env now call s : Forwarding SchedState).result =
      scheduleFuncCall env now call s := by
  unfold scheduleFuncCall
  cases pickExecutor env call.funcName s with
  | some picked => rfl
  | none =>
    simp only
    split
    · rfl
    · split <;> rfl

@[simp] theorem result_submit {callId : Option UInt32} {call : SchedCall} :
    (submit env now callId call s : Forwarding SchedState).result =
      submit env now callId call s :=
  result_scheduleFuncCall

/-! ## Objects -/

@[simp] theorem result_checkTrigger {bk : BucketKey} :
    (checkTrigger env now bk sessionId s : Forwarding _).result =
      checkTrigger env now bk sessionId s := by
  simp [checkTrigger]

@[simp] theorem result_batchForward {targets : List Name} {args : List Bytes × Int} :
    (batchForward env now sessionId appName targets args s : Forwarding SchedState).result =
      batchForward env now sessionId appName targets args s := by
  unfold batchForward
  simp only
  split
  · rw [Logged.result_bind, Logged.result_foldlM]
    simp only [result_submit]
    congr 1
    funext s
    split <;> rfl
  · simp

@[simp] theorem result_invokeDirectly {targets : USet Name} :
    (invokeDirectly env now packing infos appName targets s : Forwarding SchedState).result =
      invokeDirectly env now packing infos appName targets s := by
  unfold invokeDirectly
  simp only
  split
  · rw [result_batchForward]
  · split
    · rw [result_submit]
    · rfl

@[simp] theorem result_putObject :
    (putObject env now packing infos s : Forwarding SchedState).result =
      putObject env now packing infos s := by
  simp [putObject]

@[simp] theorem result_sendEphemeral :
    (sendEphemeral env now packing infos s : Forwarding SchedState).result =
      sendEphemeral env now packing infos s := by
  unfold sendEphemeral
  rw [Logged.result_bind, result_noForward]
  congr 1
  funext s
  simp only
  split
  · exact result_invokeDirectly
  · split
    · exact result_putObject
    · rfl

@[simp] theorem result_executorMessage {message : Bytes} :
    (executorMessage env now message s : Forwarding SchedState).result =
      executorMessage env now message s := by
  unfold executorMessage
  split
  · simp only
    split
    · split <;> rfl
    · split
      · split
        · split
          · rfl
          · split
            · exact result_sendEphemeral
            · split <;> rfl
        · rfl
      · split
        · rfl
        · split <;> rfl
  · rfl

/-! ## Messages from other nodes -/

@[simp] theorem result_callRequest {request : FunctionRequest} :
    (callRequest env now appName sessionId s request : Forwarding SchedState).result =
      callRequest env now appName sessionId s request := by
  unfold callRequest
  simp only
  rw [Logged.result_map]
  split
  · rw [result_submit]
    rfl
  · rfl

@[simp] theorem result_handleCall {call : FunctionCall} :
    (handleCall env now call s : Forwarding SchedState).result = handleCall env now call s := by
  simp [handleCall]

@[simp] theorem result_resumeCall {key : Bytes} {callId : UInt32} :
    (resumeCall env now key s callId : Forwarding SchedState).result =
      resumeCall env now key s callId := by
  unfold resumeCall
  simp only
  split
  · rw [Logged.result_map, result_submit]
    rfl
  · rfl

@[simp] theorem result_dataResp {key : Bytes} {size : UInt32} :
    (dataResp env now key size s : Forwarding SchedState).result =
      dataResp env now key size s := by
  unfold dataResp
  simp only
  split
  · rfl
  · simp

/-! ## Periodic passes -/

@[simp] theorem result_retryDelayed {clock : Nat → Stamp} {n : Nat} :
    (retryDelayed env clock n s : Forwarding SchedState).result =
      retryDelayed env clock n s := by
  induction n generalizing s with
  | zero => rfl
  | succ n ih =>
    unfold retryDelayed
    cases s.delayCallQueue with
    | nil => rfl
    | cons delayed rest => simp [ih]

@[simp] theorem result_forwardDelayed {stamp : Stamp} {queue : List DelayFunctionCall} :
    (forwardDelayed env stamp queue s : Forwarding SchedState).result =
      forwardDelayed env stamp queue s := by
  induction queue generalizing s with
  | nil => rfl
  | cons delayed rest ih =>
    unfold forwardDelayed
    split
    · split
      · exact ih
      · simp [ih]
    · rfl

@[simp] theorem result_rerunItem {item : RerunCheckQueueItem} :
    (rerunItem env now item s : Forwarding SchedState).result = rerunItem env now item s := by
  unfold rerunItem
  cases s.bucketTriggersMap.objects[item.triggerPtr]? with
  | none => rfl
  | some trigger => simp

@[simp] theorem result_rerunCheck {reportEnd : Stamp} {fuel : Nat} :
    (rerunCheck env now reportEnd fuel s : Forwarding SchedState).result =
      rerunCheck env now reportEnd fuel s := by
  induction fuel generalizing s with
  | zero => rfl
  | succ fuel ih =>
    unfold rerunCheck
    cases topItem s.rerunCheckQueue with
    | none => rfl
    | some item =>
      simp only
      split
      · simp [ih]
      · rfl

/-! ## The main loop -/

def nodeStepLogged (env : SchedEnv) (s : SchedState) (e : NodeEvent) : Forwarding SchedState :=
  nodeStep env s e

theorem result_nodeStepLogged (env : SchedEnv) (s : SchedState) (e : NodeEvent) :
    (nodeStepLogged env s e).result = nodeStep env s e := by
  unfold nodeStepLogged
  cases e <;> simp [nodeStep, delayPass]

end Pheromone.Scheduler
