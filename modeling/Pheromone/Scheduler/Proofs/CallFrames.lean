import Pheromone.Scheduler.Proofs.ObjectArrival

/-!
# What the trace says about waiting calls

Which calls arrived, which objects they still wait for and which calls were
handed to `schedule_func_call` can be read off the trace of a scheduler.  Most
steps leave all of it alone.
-/

namespace Pheromone.Scheduler

open Lib Common

variable {s s' : SchedState} {env : SchedEnv} {now : Stamp} {outs : List SchedOut}
  {sessionId : Session} {infos : SendInfos} {packing : Packing}

/-! ## What the trace says -/

def pendingStep (callId : UInt32) (found : Option InflightFuncArgs) :
    SchedOut → Option InflightFuncArgs
  | .arrived id args => if id = callId then some args else found
  | .dataArrived key =>
      found.map fun args => { args with inflightArgs := args.inflightArgs.erase key }
  | _ => found

def pending (callId : UInt32) (trace : List SchedOut) : Option InflightFuncArgs :=
  trace.foldl (pendingStep callId) none

def SchedOut.arrival : SchedOut → Option (UInt32 × InflightFuncArgs)
  | .arrived id args => some (id, args)
  | _ => none

def arrivals (trace : List SchedOut) : List (UInt32 × InflightFuncArgs) :=
  trace.filterMap SchedOut.arrival

def SchedOut.handed (callId : UInt32) : SchedOut → List SchedCall
  | .submit (some id) call => if id = callId then [call] else []
  | _ => []

def handed (callId : UInt32) (trace : List SchedOut) : List SchedCall :=
  trace.flatMap (SchedOut.handed callId)

def SchedOut.isCall : SchedOut → Bool
  | .arrived _ _ => true
  | .fired _ _ => true
  | _ => false

def callsMade (trace : List SchedOut) : Nat := trace.countP SchedOut.isCall

/-- An output that says nothing about the arrival of calls and objects. -/
def SchedOut.Quiet : SchedOut → Prop
  | .arrived _ _ | .dataArrived _ => False
  | _ => True

/-- An output that says nothing about numbered calls. -/
def SchedOut.Neutral : SchedOut → Prop
  | .arrived _ _ | .dataArrived _ | .submit (some _) _ | .dataReq true _ _ => False
  | _ => True

theorem SchedOut.Neutral.quiet {out : SchedOut} (h : out.Neutral) : out.Quiet := by
  cases out with
  | arrived | dataArrived => cases h
  | _ => trivial

theorem pending_append (callId : UInt32) (trace outs : List SchedOut) :
    pending callId (trace ++ outs) = outs.foldl (pendingStep callId) (pending callId trace) :=
  List.foldl_append

theorem arrivals_append (trace outs : List SchedOut) :
    arrivals (trace ++ outs) = arrivals trace ++ arrivals outs :=
  List.filterMap_append

theorem arrivals_of_quiet (h : ∀ out ∈ outs, out.Quiet) : arrivals outs = [] := by
  unfold arrivals
  rw [List.filterMap_eq_nil_iff]
  intro out hout
  have hquiet := h out hout
  cases out with
  | arrived => cases hquiet
  | _ => rfl

theorem pending_of_mem_arrivals (id : UInt32) (trace : List SchedOut)
    (h : id ∈ (arrivals trace).map Prod.fst) : ∃ args, pending id trace = some args := by
  induction trace using List.reverseRecOn with
  | nil => simp [arrivals] at h
  | append_singleton trace out ih =>
    rw [arrivals_append, List.map_append, List.mem_append] at h
    rw [pending_append]
    have hold : id ∈ (arrivals trace).map Prod.fst →
        ∃ args, pendingStep id (pending id trace) out = some args := by
      intro hid
      obtain ⟨args, hargs⟩ := ih hid
      rw [hargs]
      cases out with
      | arrived id' args' =>
        by_cases heq : id' = id
        · exact ⟨args', if_pos heq⟩
        · exact ⟨args, if_neg heq⟩
      | dataArrived key => exact ⟨_, rfl⟩
      | _ => exact ⟨args, rfl⟩
    rcases h with h | h
    · exact hold h
    · cases out with
      | arrived id' args' =>
        have hid : id = id' := by simpa [arrivals, SchedOut.arrival] using h
        exact ⟨args', if_pos hid.symm⟩
      | _ => simp [arrivals, SchedOut.arrival] at h

theorem handed_append (callId : UInt32) (trace outs : List SchedOut) :
    handed callId (trace ++ outs) = handed callId trace ++ handed callId outs :=
  List.flatMap_append

theorem callsMade_append (trace outs : List SchedOut) :
    callsMade (trace ++ outs) = callsMade trace + callsMade outs :=
  List.countP_append

theorem pending_append_quiet (h : ∀ out ∈ outs, out.Quiet) (callId : UInt32)
    (trace : List SchedOut) : pending callId (trace ++ outs) = pending callId trace := by
  rw [pending_append]
  refine foldl_preserves (Q := fun found => found = pending callId trace) ?_ rfl
  intro found out hout hfound
  have hquiet := h out hout
  cases out with
  | arrived | dataArrived => cases hquiet
  | _ => exact hfound

theorem pending_append_arrived (callId id : UInt32) (args : InflightFuncArgs)
    (trace outs : List SchedOut) (h : ∀ out ∈ outs, out.Quiet) :
    pending callId (trace ++ .arrived id args :: outs) =
      if id = callId then some args else pending callId trace := by
  have hsplit : trace ++ .arrived id args :: outs = (trace ++ [.arrived id args]) ++ outs := by
    simp
  rw [hsplit, pending_append_quiet h, pending_append]
  rfl

theorem handed_of_neutral (h : ∀ out ∈ outs, out.Neutral) (callId : UInt32) :
    handed callId outs = [] := by
  unfold handed
  rw [List.flatMap_eq_nil_iff]
  intro out hout
  have hneutral := h out hout
  cases out with
  | submit id call =>
    cases id with
    | none => rfl
    | some id => cases hneutral
  | _ => rfl

/-! ## Steps that do not concern waiting calls -/

/-- `s'` differs from `s` in nothing that the handling of waiting calls reads,
except that more objects may be in `key_len_map`. -/
structure CallFrame (s s' : SchedState) : Prop where
  callId : s'.callId = s.callId
  inflight : s'.callIdInflightArgsMap = s.callIdInflightArgsMap
  waiting : s'.keyCallIdMap = s.keyCallIdMap
  keyLen : ∀ key size, s.keyLenMap key = some size → s'.keyLenMap key = some size
  sent : ∃ outs, s'.sent = s.sent ++ outs ∧ ∀ out ∈ outs, out.Neutral

namespace CallFrame

theorem refl (s : SchedState) : CallFrame s s :=
  ⟨rfl, rfl, rfl, fun _ _ h => h, [], by simp, by simp⟩

theorem trans {s₁ s₂ s₃ : SchedState} (h₁ : CallFrame s₁ s₂) (h₂ : CallFrame s₂ s₃) :
    CallFrame s₁ s₃ := by
  obtain ⟨outs₁, hsent₁, hneutral₁⟩ := h₁.sent
  obtain ⟨outs₂, hsent₂, hneutral₂⟩ := h₂.sent
  refine ⟨h₂.callId.trans h₁.callId, h₂.inflight.trans h₁.inflight,
    h₂.waiting.trans h₁.waiting, fun k n h => h₂.keyLen k n (h₁.keyLen k n h),
    outs₁ ++ outs₂, by rw [hsent₂, hsent₁, List.append_assoc], ?_⟩
  intro out hout
  rcases List.mem_append.mp hout with hout | hout
  · exact hneutral₁ out hout
  · exact hneutral₂ out hout

end CallFrame

theorem forwardCallViaHelper_callFrame {appName : Name} {calls : List SchedCall}
    {args : List (List Bytes)} {argFlag : Int}
    (h : forwardCallViaHelper env sessionId appName calls args argFlag s = some s') :
    CallFrame s s' := by
  obtain ⟨address, requests, touched, keyLenMap, id, htouched, rfl⟩ :=
    forwardCallViaHelper_spec h
  refine ⟨rfl, rfl, rfl, fun key size hkey => ?_, _, rfl, ?_⟩
  · unfold TouchedBy at htouched
    simp only [htouched]
    exact foldl_touch_keeps touched hkey
  · intro out hout
    rw [List.mem_singleton] at hout
    subst hout
    trivial

theorem scheduleFuncCall_callFrame {call : SchedCall}
    (h : scheduleFuncCall env now call s = some s') : CallFrame s s' := by
  rcases scheduleFuncCall_cases h with ⟨id, seed, cold, _, rfl⟩ | ⟨_, _, rfl⟩ |
    ⟨_, _, _, rfl⟩ | ⟨_, _, _, args, _, hforward⟩
  · obtain ⟨_, _, _, _, heq⟩ := sendToExecutor_spec now call id seed cold s
    rw [heq]
    refine ⟨rfl, rfl, rfl, fun _ _ h => h, _, rfl, ?_⟩
    intro out hout
    rw [List.mem_singleton] at hout
    subst hout
    trivial
  · exact ⟨rfl, rfl, rfl, fun _ _ h => h, [], by simp, by simp⟩
  · exact CallFrame.refl _
  · exact forwardCallViaHelper_callFrame hforward

theorem emit_callFrame (out : SchedOut) (h : out.Neutral) (s : SchedState) :
    CallFrame s (s.emit out) := by
  refine ⟨rfl, rfl, rfl, fun _ _ h => h, [out], rfl, ?_⟩
  intro o ho
  rw [List.mem_singleton] at ho
  subst ho
  exact h

theorem submit_callFrame {call : SchedCall} (h : submit env now none call s = some s') :
    CallFrame s s' :=
  (emit_callFrame (.submit none call) trivial s).trans (scheduleFuncCall_callFrame h)

theorem delayPass_callFrame {clock : Nat → Stamp} {stamp : Stamp}
    (h : delayPass env clock stamp s = some s') : CallFrame s s' :=
  delayPass_preserves (fun _ _ _ _ h hs => hs.trans (scheduleFuncCall_callFrame h))
    (fun _ _ _ _ _ _ _ h hs => hs.trans (forwardCallViaHelper_callFrame h))
    (fun _ _ hs => ⟨hs.callId, hs.inflight, hs.waiting, hs.keyLen, hs.sent⟩) h
    (CallFrame.refl s)

/-! ## Objects put here -/

theorem checkObjectArrival_callFrame (now : Stamp) (bk : BucketKey) (s : SchedState) :
    CallFrame s (checkObjectArrival now bk s).1 := by
  obtain ⟨keyLenMap, hkeyLen, heq, _⟩ := checkObjectArrival_spec now bk s
  rw [heq]
  refine ⟨rfl, rfl, rfl, hkeyLen, _, rfl, ?_⟩
  intro out hout
  obtain ⟨f, _, rfl⟩ := List.mem_map.mp hout
  trivial

theorem callsMade_firings (firings : List (Name × TriggerAction)) :
    callsMade (firings.map .ofFiring) = firings.length := by
  unfold callsMade
  rw [List.countP_eq_length.mpr, List.length_map]
  intro out hout
  obtain ⟨f, _, rfl⟩ := List.mem_map.mp hout
  rfl

theorem notifyPut_callFrame (env : SchedEnv) (bk : BucketKey) (active : List Name)
    (respAddress : Address) (payload : Value) (s : SchedState) :
    CallFrame s (notifyPut env bk active respAddress payload s) := by
  obtain ⟨rid, id, outs, heq, houts⟩ := notifyPut_state env bk active respAddress payload s
  rw [heq]
  refine ⟨rfl, rfl, rfl, fun _ _ h => h, outs, rfl, ?_⟩
  intro out hout
  obtain ⟨address, msg, rfl⟩ := houts out hout
  trivial

theorem checkTrigger_spec {bk : BucketKey} {result : SchedState × List Name}
    (h : checkTrigger env now bk sessionId s = some result) :
    CallFrame s result.1 ∧
      callsMade s.sent + result.2.length ≤ callsMade result.1.sent := by
  obtain ⟨s', hs', rfl⟩ := Option.map_eq_some_iff.mp h
  have hrest : CallFrame (checkObjectArrival now bk s).1 s' :=
    foldlM_preserves (Q := CallFrame (checkObjectArrival now bk s).1)
      (fun _ _ _ _ h hs => hs.trans (submit_callFrame h)) hs' (CallFrame.refl _)
  refine ⟨(checkObjectArrival_callFrame now bk s).trans hrest, ?_⟩
  obtain ⟨keyLenMap, _, heq, hactive⟩ := checkObjectArrival_spec now bk s
  obtain ⟨outs, houts, _⟩ := hrest.sent
  have hle := activeNames_length_le (now * 1000) bk (s.triggersOf bk.bucket)
  rw [houts, heq, callsMade_append, callsMade_append, callsMade_firings]
  simp only [hactive]
  omega

theorem invokeDirectly_callFrame {appName : Name} {targets : USet Name}
    (h : invokeDirectly env now packing infos appName targets s = some s') : CallFrame s s' :=
  invokeDirectly_preserves (Q := CallFrame s) (fun _ _ _ _ h hs => hs.trans (submit_callFrame h))
    (fun _ _ _ _ _ h hs => hs.trans (forwardCallViaHelper_callFrame h)) h (CallFrame.refl s)

/-- A step that may also skip call numbers, as many as triggers were active. -/
def SkipFrame (s s' : SchedState) : Prop :=
  ∃ n s₁, CallFrame s s₁ ∧ callsMade s.sent + n ≤ callsMade s₁.sent ∧
    s' = { s₁ with callId := s₁.callId + UInt32.ofNat n }

theorem CallFrame.skipFrame (h : CallFrame s s') : SkipFrame s s' := by
  obtain ⟨outs, hsent, _⟩ := h.sent
  refine ⟨0, s', h, ?_, ?_⟩
  · rw [hsent, callsMade_append]
    omega
  · simp

theorem putObject_skipFrame (h : putObject env now packing infos s = some s') : SkipFrame s s' := by
  obtain ⟨result, hresult, rfl⟩ := Option.map_eq_some_iff.mp h
  obtain ⟨hframe, hcount⟩ := checkTrigger_spec hresult
  have htouch : CallFrame result.1 (result.1.touchClientAddr infos.sessionId) :=
    ⟨rfl, rfl, rfl, fun _ _ h => h, [], by simp [SchedState.touchClientAddr], by simp⟩
  refine ⟨result.2.length, _, hframe.trans ?_, ?_, rfl⟩
  · cases packing with
    | packed => exact htouch.trans (notifyPut_callFrame ..)
    | sharedMemory => exact htouch.trans (notifyPut_callFrame ..)
    | other => exact CallFrame.refl _
  · refine le_trans hcount ?_
    have hmono : ∀ {s s' : SchedState}, CallFrame s s' → callsMade s.sent ≤ callsMade s'.sent := by
      intro s s' hs
      obtain ⟨outs, hsent, _⟩ := hs.sent
      rw [hsent, callsMade_append]
      omega
    apply hmono
    cases packing with
    | packed => exact htouch.trans (notifyPut_callFrame ..)
    | sharedMemory => exact htouch.trans (notifyPut_callFrame ..)
    | other => exact CallFrame.refl _

theorem sendEphemeral_skipFrame (h : sendEphemeral env now packing infos s = some s') :
    ∃ s₁, storeObject packing infos s = some s₁ ∧ SkipFrame s₁ s' := by
  obtain ⟨s₁, hs₁, hcases⟩ := sendEphemeral_cases h
  refine ⟨s₁, hs₁, ?_⟩
  rcases hcases with ⟨targets, _, hdirect⟩ | ⟨_, _, hput⟩ | ⟨_, _, rfl⟩
  · exact (invokeDirectly_callFrame hdirect).skipFrame
  · exact putObject_skipFrame hput
  · exact (CallFrame.refl s').skipFrame

end Pheromone.Scheduler
