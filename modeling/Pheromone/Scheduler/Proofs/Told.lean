import Pheromone.Scheduler.Proofs.Records

/-!
# What only the coordinator changes

A scheduler learns about applications, their functions and the coordinators of
their buckets from update messages alone.  Scheduling a call touches a trigger
only in its records of source functions.
-/

namespace Pheromone.Scheduler

open Lib Common

variable {s s' : SchedState} {env : SchedEnv} {now : Stamp} {infos : SendInfos} {packing : Packing}
  {appName : Name}

def SchedState.told (s : SchedState) :
    Map Name AppInfo × Map Name Name × Map Bucket Name × Map Name HandlerThread ×
      Map Bucket HandlerThread :=
  (s.appInfoMap, s.funcAppMap, s.bucketAppMap, s.appCoordMap, s.bucketCoordMap)

/-! ## Scheduling -/

structure Dispatched (s s' : SchedState) : Prop where
  told : s'.told = s.told
  triggers : ∀ bucket, (s'.triggersOf bucket).map Trigger.withoutReruns =
    (s.triggersOf bucket).map Trigger.withoutReruns
  sent : ∃ outs, s'.sent = s.sent ++ outs ∧ ∀ out ∈ outs, out.IsDispatch

namespace Dispatched

theorem refl (s : SchedState) : Dispatched s s :=
  ⟨rfl, fun _ => rfl, [], by simp, by simp⟩

theorem trans {s₁ s₂ s₃ : SchedState} (h₁ : Dispatched s₁ s₂) (h₂ : Dispatched s₂ s₃) :
    Dispatched s₁ s₃ := by
  obtain ⟨outs₁, hsent₁, hdispatch₁⟩ := h₁.sent
  obtain ⟨outs₂, hsent₂, hdispatch₂⟩ := h₂.sent
  refine ⟨h₂.told.trans h₁.told, fun b => (h₂.triggers b).trans (h₁.triggers b),
    outs₁ ++ outs₂, by rw [hsent₂, hsent₁, List.append_assoc], ?_⟩
  intro out hout
  rcases List.mem_append.mp hout with hout | hout
  · exact hdispatch₁ out hout
  · exact hdispatch₂ out hout

theorem of_sent {out : SchedOut} (htold : s'.told = s.told)
    (htriggers : s'.bucketTriggersMap = s.bucketTriggersMap) (hsent : s'.sent = s.sent ++ [out])
    (hout : out.IsDispatch) : Dispatched s s' := by
  refine ⟨htold, fun b => ?_, [out], hsent, ?_⟩
  · unfold SchedState.triggersOf
    rw [htriggers]
  · intro out' hout'
    rw [List.mem_singleton.mp hout']
    exact hout

end Dispatched

theorem forwardCallViaHelper_dispatched {sessionId : Session} {calls : List SchedCall}
    {args : List (List Bytes)} {argFlag : Int}
    (h : forwardCallViaHelper env sessionId appName calls args argFlag s = some s') :
    Dispatched s s' := by
  obtain ⟨address, requests, touched, keyLenMap, id, _, rfl⟩ := forwardCallViaHelper_spec h
  exact Dispatched.of_sent rfl rfl rfl trivial

theorem scheduleFuncCall_dispatched {call : SchedCall}
    (h : scheduleFuncCall env now call s = some s') : Dispatched s s' := by
  rcases scheduleFuncCall_cases h with ⟨executor, seed, cold, _, rfl⟩ | ⟨_, _, rfl⟩ |
    ⟨_, _, _, rfl⟩ | ⟨_, _, _, args, _, hforward⟩
  · obtain ⟨triggers, queue, functionExecutorMap, hlist, heq⟩ :=
      sendToExecutor_spec now call executor seed cold s
    rw [heq]
    refine ⟨rfl, fun bucket => ?_, _, rfl, ?_⟩
    · exact hlist Trigger.withoutReruns bucket (Trigger.withoutReruns_notifySourceFunc _ _ _ _)
    · intro out hout
      rw [List.mem_singleton.mp hout]
      trivial
  · exact ⟨rfl, fun _ => rfl, [], by simp, by simp⟩
  · exact Dispatched.refl s'
  · exact forwardCallViaHelper_dispatched hforward

theorem submit_dispatched {callId : Option UInt32} {call : SchedCall}
    (h : submit env now callId call s = some s') : Dispatched s s' := by
  have hemit : Dispatched s (s.emit (.submit callId call)) :=
    Dispatched.of_sent rfl rfl rfl trivial
  exact hemit.trans (scheduleFuncCall_dispatched h)

theorem foldlM_submit_dispatched {α : Type} {call : SchedState → α → SchedCall} {l : List α}
    (h : l.foldlM (fun s a => submit env now none (call s a) s) s = some s') : Dispatched s s' :=
  foldlM_preserves (Q := Dispatched s) (fun _ _ _ _ h hs => hs.trans (submit_dispatched h)) h
    (Dispatched.refl s)

theorem invokeDirectly_dispatched {targets : USet Name}
    (h : invokeDirectly env now packing infos appName targets s = some s') : Dispatched s s' :=
  invokeDirectly_preserves (Q := Dispatched s) (fun _ _ _ _ h hs => hs.trans (submit_dispatched h))
    (fun _ _ _ _ _ h hs => hs.trans (forwardCallViaHelper_dispatched h)) h (Dispatched.refl s)

/-! ## Every other event -/

theorem checkObjectArrival_told (now : Stamp) (bk : BucketKey) (s : SchedState) :
    (checkObjectArrival now bk s).1.told = s.told := rfl

theorem putObject_spec (h : putObject env now packing infos s = some s') :
    ∃ s₁ notified n,
      let bk := infos.bucketKey
      Dispatched (checkObjectArrival now bk s).1 s₁ ∧
        ((packing = .other ∧ notified = s₁) ∨
          (packing ≠ .other ∧ ∃ payload, notified =
            notifyPut env bk (activeNames (now * 1000) bk (s.triggersOf bk.bucket))
              (s₁.clientAddr infos.sessionId) payload (s₁.touchClientAddr infos.sessionId))) ∧
        s' = { notified with callId := n } := by
  unfold putObject at h
  obtain ⟨result, hresult, rfl⟩ := Option.map_eq_some_iff.mp h
  obtain ⟨s₁, hs₁, rfl⟩ := Option.map_eq_some_iff.mp hresult
  obtain ⟨_, _, _, hactive⟩ := checkObjectArrival_spec now infos.bucketKey s
  have hdispatched := foldlM_submit_dispatched hs₁
  rw [hactive]
  cases packing with
  | packed => exact ⟨s₁, _, _, hdispatched, Or.inr ⟨by decide, _, rfl⟩, rfl⟩
  | sharedMemory => exact ⟨s₁, _, _, hdispatched, Or.inr ⟨by decide, _, rfl⟩, rfl⟩
  | other => exact ⟨s₁, _, _, hdispatched, Or.inl ⟨rfl, rfl⟩, rfl⟩

def Records.told (r : Records) :
    Map Name AppInfo × Map Name Name × Map Bucket Name × Map Name HandlerThread ×
      Map Bucket HandlerThread :=
  (r.appInfoMap, r.funcAppMap, r.bucketAppMap, r.appCoordMap, r.bucketCoordMap)

theorem told_of_records (h : s'.records = s.records) : s'.told = s.told :=
  congrArg Records.told h

theorem sendEphemeral_told (h : sendEphemeral env now packing infos s = some s') :
    s'.told = s.told := by
  obtain ⟨s₁, hstore, hrecords⟩ := sendEphemeral_records h
  obtain ⟨m, values, rfl, _⟩ := storeObject_spec hstore
  exact (told_of_records hrecords).trans rfl

theorem executorMessage_told {message : Bytes} (h : executorMessage env now message s = some s') :
    s'.told = s.told :=
  executorMessage_preserves (Q := fun s' => s'.told = s.told) (fun _ _ _ _ _ _ _ _ hs => hs)
    (fun _ _ hsend => sendEphemeral_told hsend) h rfl

theorem nodeStep_told {e : NodeEvent} (h : nodeStep env s e = some s') (he : ¬ e.IsUpdate) :
    s'.told = s.told := by
  cases e with
  | executor now message => exact executorMessage_told h
  | call now msg => exact told_of_records (handleCall_records h)
  | dataResp now key size =>
    have hrecords := congrArg Records.told (dataResp_records h)
    exact hrecords
  | kvsGetResp key size =>
    cases h
    rw [kvsGetResp, answerGets_eq]
    rfl
  | kvsPutResp key =>
    cases h
    rw [kvsPutResp_eq]
    rfl
  | update now msg => exact absurd trivial he
  | delayPass clock stamp => exact told_of_records (delayPass_records h)
  | rerunCheck now reportEnd fuel => exact told_of_records (rerunCheck_records h)

/-! ## The triggers -/

def SchedState.blanks (s : SchedState) (bucket : Bucket) : List Trigger :=
  (s.triggersOf bucket).map Trigger.blank

theorem Dispatched.blanks (h : Dispatched s s') : s'.blanks = s.blanks := by
  have hblank : ∀ l : List Trigger, l.map Trigger.blank =
      (l.map Trigger.withoutReruns).map Trigger.blank := by
    intro l
    rw [List.map_map]
    exact List.map_congr_left fun t _ => (Trigger.blank_withoutReruns t).symm
  funext bucket
  unfold SchedState.blanks
  rw [hblank, h.triggers, ← hblank]

theorem checkObjectArrival_blanks (now : Stamp) (bk : BucketKey) (s : SchedState) :
    (checkObjectArrival now bk s).1.blanks = s.blanks := by
  obtain ⟨keyLenMap, -, heq, -⟩ := checkObjectArrival_spec now bk s
  rw [heq]
  funext bucket
  unfold SchedState.blanks SchedState.triggersOf
  by_cases hbucket : bucket = bk.bucket
  · subst hbucket
    rw [Shared.list_visit_self, List.map_map]
    exact List.map_congr_left fun t _ => Trigger.blank_actionForNewObject _ bk t
  · rw [Shared.list_visit_of_ne _ _ hbucket]

theorem sendEphemeral_blanks (h : sendEphemeral env now packing infos s = some s') :
    s'.blanks = s.blanks := by
  refine sendEphemeral_preserves (Q := fun s' => s'.blanks = s.blanks) ?_
    (fun _ _ _ _ h hs => (submit_dispatched h).blanks.trans hs)
    (fun _ _ _ _ _ _ h hs => (forwardCallViaHelper_dispatched h).blanks.trans hs)
    (fun bk s₁ hs => (checkObjectArrival_blanks now bk s₁).trans hs) ?_ (fun _ _ hs => hs) h
  · intro s₁ hstore
    obtain ⟨m, values, rfl, -⟩ := storeObject_spec hstore
    rfl
  · intro active payload s₁ hs
    obtain ⟨rid, id, outs, heq, -⟩ := notifyPut_state env infos.bucketKey active
      (s₁.clientAddr infos.sessionId) payload (s₁.touchClientAddr infos.sessionId)
    rw [heq]
    exact hs

theorem nodeStep_blanks {e : NodeEvent} (h : nodeStep env s e = some s') (he : ¬ e.IsUpdate) :
    s'.blanks = s.blanks := by
  cases e with
  | executor now message =>
    exact executorMessage_preserves (Q := fun s' => s'.blanks = s.blanks)
      (fun _ _ _ _ _ _ _ _ hs => hs) (fun _ _ hsend => sendEphemeral_blanks hsend) h rfl
  | call now msg =>
    exact handleCall_preserves (Q := fun s' => s'.blanks = s.blanks)
      (fun _ _ _ _ _ _ _ hs => hs) (fun _ _ _ hs => hs)
      (fun _ _ _ _ h hs => (submit_dispatched h).blanks.trans hs) h rfl
  | dataResp now key size =>
    exact dataResp_preserves (Q := fun s' => s'.blanks = s.blanks)
      (fun _ _ _ _ _ _ _ hs => hs)
      (fun _ _ _ _ h hs => (submit_dispatched h).blanks.trans hs) h rfl
  | kvsGetResp key size =>
    cases h
    rw [kvsGetResp, answerGets_eq]
    rfl
  | kvsPutResp key =>
    cases h
    rw [kvsPutResp_eq]
    rfl
  | update now msg => exact absurd trivial he
  | delayPass clock stamp =>
    exact delayPass_preserves (Q := fun s' => s'.blanks = s.blanks)
      (fun _ _ _ _ h hs => (scheduleFuncCall_dispatched h).blanks.trans hs)
      (fun _ _ _ _ _ _ _ h hs => (forwardCallViaHelper_dispatched h).blanks.trans hs)
      (fun _ _ hs => hs) h rfl
  | rerunCheck now reportEnd fuel =>
    exact rerunCheck_preserves (Q := fun s' => s'.blanks = s.blanks)
      (fun _ _ _ h hs => (submit_dispatched h).blanks.trans hs) (fun _ _ hs => hs) h rfl

theorem blanks_eq_nil_iff {bucket : Bucket} : s.blanks bucket = [] ↔ s.triggersOf bucket = [] :=
  List.map_eq_nil_iff

end Pheromone.Scheduler
