import Pheromone.Common.FiringLog
import Pheromone.Scheduler.Proofs.Reframing
import Pheromone.Scheduler.Proofs.Told
import Pheromone.Scheduler.Proofs.Updates

/-!
# The functions that a sequence of objects starts

An object that a function sends as ephemeral data starts the direct dependencies
of the function, or the actions of the triggers of its bucket.
-/

namespace Pheromone.Scheduler

open Lib Common

variable {s s' : SchedState} {env : SchedEnv}

structure Send where
  now : Stamp
  packing : Packing
  infos : SendInfos

namespace Send

def object (send : Send) : BucketKey :=
  BucketKey.ofSessionKey send.infos.bucket send.infos.sessionKey

def directTargets (send : Send) (targets : USet Name) : List Name :=
  if send.infos.tgtFunction = [] then targets.elems
  else if send.infos.tgtFunction ∈ targets then [send.infos.tgtFunction]
  else []

def starts (send : Send) (s : SchedState) : List Name :=
  match s.directDepsOf send.infos.srcFunction with
  | some targets => send.directTargets targets
  | none =>
      if send.infos.bucket = bucketNameDirectInvoc then []
      else
        (checkObjectArrival send.now send.object s).2.2.map TriggerFunctionMetadata.funcName

end Send

def startedBy (env : SchedEnv) : List Send → SchedState → Option (List Name)
  | [], _ => some []
  | send :: rest, s =>
      (sendEphemeral env send.now send.packing send.infos s).bind fun s' =>
        (startedBy env rest s').map fun names => send.starts s ++ names

/-! ## What an object does to the triggers -/

/-- The check of the object, if the triggers of its bucket see it. -/
def Send.check (deps : Name → Option (USet Name)) (send : Send) : List Check :=
  if deps send.infos.srcFunction = none ∧ send.infos.bucket ≠ bucketNameDirectInvoc then
    [{ now := send.now * 1000, active := [], object := send.object }]
  else []

theorem Dispatched.sameActions (h : Dispatched s s') (b : Bucket) :
    SameActions (s'.triggersOf b) (s.triggersOf b) :=
  h.triggers b

theorem checkObjectArrival_after (now : Stamp) (bk : BucketKey) (s : SchedState) :
    (checkObjectArrival now bk s).1.triggersOf =
      Check.after { now := now * 1000, active := [], object := bk } s.triggersOf := by
  funext b
  unfold Check.after
  by_cases hb : b = bk.bucket
  · rw [hb, Function.update_self]
    exact checkObjectArrival_triggersOf now bk s
  · rw [Function.update_of_ne hb]
    exact Shared.list_visit_of_ne _ _ hb

theorem putObject_sameActions {now : Stamp} {packing : Packing} {infos : SendInfos}
    (h : putObject env now packing infos s = some s') (b : Bucket) :
    SameActions (s'.triggersOf b)
      ((checkObjectArrival now infos.bucketKey s).1.triggersOf b) := by
  obtain ⟨s₁, notified, n, hdispatched, hnotified, rfl⟩ := putObject_spec h
  have hsame := hdispatched.sameActions b
  rcases hnotified with ⟨-, rfl⟩ | ⟨-, payload, rfl⟩
  · exact hsame
  · obtain ⟨rid, id, outs, heq, -⟩ := notifyPut_state env infos.bucketKey
      (activeNames (now * 1000) infos.bucketKey (s.triggersOf infos.bucketKey.bucket))
      (s₁.clientAddr infos.sessionId) payload (s₁.touchClientAddr infos.sessionId)
    rw [heq]
    exact hsame

theorem sendEphemeral_directDepsOf {now : Stamp} {packing : Packing} {infos : SendInfos}
    (h : sendEphemeral env now packing infos s = some s') : s'.directDepsOf = s.directDepsOf := by
  have htold := sendEphemeral_told h
  simp only [SchedState.told, Prod.mk.injEq] at htold
  funext func
  unfold SchedState.directDepsOf SchedState.appInfo
  rw [htold.1, htold.2.1]

theorem sendEphemeral_sameActions {send : Send}
    (h : sendEphemeral env send.now send.packing send.infos s = some s') (b : Bucket) :
    SameActions (s'.triggersOf b)
      ((send.check s.directDepsOf).foldl (fun triggers check => check.after triggers)
        s.triggersOf b) := by
  obtain ⟨s₁, hstore, hcases⟩ := sendEphemeral_cases h
  obtain ⟨m, values, rfl, -⟩ := storeObject_spec hstore
  unfold Send.check
  rcases hcases with ⟨targets, hdeps, hdirect⟩ | ⟨hdeps, hbucket, hput⟩ | ⟨hdeps, hbucket, rfl⟩
  · have hsome : s.directDepsOf send.infos.srcFunction = some targets := hdeps
    rw [if_neg (by simp [hsome])]
    exact (invokeDirectly_dispatched hdirect).sameActions b
  · rw [if_pos ⟨hdeps, hbucket⟩]
    have hafter := checkObjectArrival_after send.now send.object
      { s with keyLenMap := m, keyValMap := values }
    have hsame := putObject_sameActions hput b
    unfold Send.object at hafter
    rw [hafter] at hsame
    exact hsame
  · rw [if_neg (by simp [hbucket])]
    exact rfl

/-! ## States with more triggers that never fire -/

def bare : Reframing where
  triggers := fun _ => Shared.empty
  queue := fun _ => []
  timeouts := fun _ => Map.empty
  apps := fun _ => Map.empty

theorem bare_recordRerun (now : Stamp) (call : SchedCall) (reruns : List RerunTriggerTimeout)
    (s : SchedState) : bare.apply (reruns.foldl (recordRerun now call) s) = bare.apply s := by
  induction reruns generalizing s with
  | nil => rfl
  | cons rerun reruns ih => exact ih (recordRerun now call s rerun)

theorem bare_keeps : bare.Keeps := by
  intro now call executor seed cold s
  unfold sendToExecutor
  rw [bare_recordRerun]
  rfl

/-- Calls are scheduled alike in both states, and the second one has the triggers of the first
one and some that never fire. -/
structure Alike (s₁ s₂ : SchedState) : Prop where
  others : bare.apply s₂ = bare.apply s₁
  directDeps : s₂.directDepsOf = s₁.directDepsOf
  triggers : ∃ silent : Bucket → List Trigger, (∀ b, ∀ t ∈ silent b, t.Silent) ∧
    ∀ b, SameActions (s₂.triggersOf b) (s₁.triggersOf b ++ silent b)

theorem describeTrigger_foldl_withoutReruns (keyValMap : Map Bytes Value) (bk : BucketKey)
    (now : TimePoint) (l : List Trigger) (acc : Arrival) :
    ((l.map Trigger.withoutReruns).map (Trigger.actionForNewObject now bk)).foldl
        (describeTrigger keyValMap bk.bucket) acc =
      (l.map (Trigger.actionForNewObject now bk)).foldl (describeTrigger keyValMap bk.bucket)
        acc := by
  rw [List.map_map, List.foldl_map, List.foldl_map]
  congr 1
  funext acc t
  have hactions := (Trigger.actionForNewObject_withoutReruns now bk t).1
  unfold describeTrigger
  simp only [Function.comp_apply, hactions]
  rfl

theorem describeTrigger_foldl_silent (keyValMap : Map Bytes Value) (bk : BucketKey)
    (now : TimePoint) {l : List Trigger} (hl : ∀ t ∈ l, t.Silent) (acc : Arrival) :
    (l.map (Trigger.actionForNewObject now bk)).foldl (describeTrigger keyValMap bk.bucket)
      acc = acc := by
  induction l with
  | nil => rfl
  | cons t l ih =>
    have hnone := ((hl t List.mem_cons_self).step now bk).1
    rw [List.map_cons, List.foldl_cons, describeTrigger, if_pos hnone]
    exact ih fun u hu => hl u (List.mem_cons_of_mem t hu)

theorem bare_arrived {s₁ s₂ : SchedState} (h : bare.apply s₂ = bare.apply s₁)
    (triggers₁ triggers₂ : Shared Bucket Trigger) (sizes : Map Bytes Nat) (outs : List SchedOut) :
    bare.apply { s₂ with
        bucketTriggersMap := triggers₂, keyLenMap := sizes, sent := s₂.sent ++ outs } =
      bare.apply { s₁ with
        bucketTriggersMap := triggers₁, keyLenMap := sizes, sent := s₁.sent ++ outs } :=
  congrArg (fun s : SchedState => { s with keyLenMap := sizes, sent := s.sent ++ outs }) h

section Alike

variable {s₁ s₂ : SchedState} (env)

theorem Alike.arrival (h : Alike s₁ s₂) (now : Stamp) (bk : BucketKey) :
    (checkObjectArrival now bk s₂).2 = (checkObjectArrival now bk s₁).2 ∧
      bare.apply (checkObjectArrival now bk s₂).1 =
        bare.apply (checkObjectArrival now bk s₁).1 := by
  have hvalues : s₂.keyValMap = s₁.keyValMap := (congrArg SchedState.keyValMap h.others :)
  have hsizes : s₂.keyLenMap = s₁.keyLenMap := (congrArg SchedState.keyLenMap h.others :)
  obtain ⟨silent, hsilent, htriggers⟩ := h.triggers
  have harrival : (s₂.bucketTriggersMap.visit bk.bucket fun trigger =>
        let result := trigger.actionForNewObject (now * 1000) bk
        (result.1, result)).2.foldl (describeTrigger s₂.keyValMap bk.bucket)
          { keyLenMap := s₂.keyLenMap, activeTriggers := [], activeFuncMetadata := []
            fired := [] } =
      (s₁.bucketTriggersMap.visit bk.bucket fun trigger =>
        let result := trigger.actionForNewObject (now * 1000) bk
        (result.1, result)).2.foldl (describeTrigger s₁.keyValMap bk.bucket)
          { keyLenMap := s₁.keyLenMap, activeTriggers := [], activeFuncMetadata := []
            fired := [] } := by
    rw [Shared.visit_snd, Shared.visit_snd, hvalues, hsizes]
    refine (describeTrigger_foldl_withoutReruns _ bk _ (s₂.triggersOf bk.bucket) _).symm.trans ?_
    rw [htriggers bk.bucket, describeTrigger_foldl_withoutReruns, List.map_append,
      List.foldl_append]
    exact describeTrigger_foldl_silent _ bk _ (hsilent bk.bucket) _
  unfold checkObjectArrival
  simp only [harrival, true_and]
  exact bare_arrived h.others _ _ _ _

theorem bare_notifyChecked (packing : Packing) (infos : SendInfos)
    (result : SchedState × List Name) :
    bare.apply (notifyChecked env packing infos result) =
      notifyChecked env packing infos (Prod.map bare.apply id result) := by
  have hnotify : ∀ bk active address payload (s : SchedState),
      bare.apply (notifyPut env bk active address payload s) =
        notifyPut env bk active address payload (bare.apply s) := by
    intro bk active address payload s
    have hcoord : (bare.apply s).bucketCoordMap = s.bucketCoordMap := rfl
    unfold notifyPut
    rw [hcoord]
    cases s.bucketCoordMap bk.bucket <;> rfl
  have hcount : ∀ (s : SchedState) n, bare.apply { s with callId := s.callId + n } =
      { bare.apply s with callId := (bare.apply s).callId + n } := fun _ _ => rfl
  unfold notifyChecked
  cases packing with
  | other => rfl
  | packed | sharedMemory =>
    simp only [hcount, hnotify]
    rfl

theorem Alike.check (h : Alike s₁ s₂) (now : Stamp) (bk : BucketKey) (sessionId : Session) :
    (checkTrigger env now bk sessionId s₂).map (Prod.map bare.apply id) =
      (checkTrigger env now bk sessionId s₁).map (Prod.map bare.apply id) := by
  obtain ⟨hfired, hbare⟩ := h.arrival now bk
  let starts (s : SchedState) (metadata : TriggerFunctionMetadata) : Option SchedState :=
    submit env now none
      { sessionId
        appName := s.bucketAppMap.getD bk.bucket []
        funcName := metadata.funcName
        funcArgs := metadata.funcArgs
        argFlag := metadata.argFlag } s
  have hloop : ∀ (functions : List TriggerFunctionMetadata) s,
      (functions.foldlM starts s).map bare.apply = functions.foldlM starts (bare.apply s) :=
    foldlM_map bare.apply fun s metadata =>
      (Reframing.submit_apply env bare_keeps now none _ s).symm
  have hpair : ∀ names : List Name, Prod.map bare.apply id ∘ (fun s => (s, names)) =
      (fun s => (s, names)) ∘ bare.apply := fun _ => rfl
  unfold checkTrigger
  simp only [hfired, Option.map_eq_map, Option.map_map, hpair]
  rw [← Option.map_map, ← Option.map_map, hloop, hloop, hbare]

theorem Alike.put (h : Alike s₁ s₂) (now : Stamp) (packing : Packing) (infos : SendInfos) :
    (putObject env now packing infos s₂).map bare.apply =
      (putObject env now packing infos s₁).map bare.apply := by
  have hnotify : bare.apply ∘ notifyChecked env packing infos =
      notifyChecked env packing infos ∘ Prod.map bare.apply id :=
    funext (bare_notifyChecked env packing infos)
  unfold putObject
  rw [Option.map_eq_map, Option.map_map, Option.map_map, hnotify, ← Option.map_map,
    ← Option.map_map, h.check env]

theorem Alike.store (h : Alike s₁ s₂) (packing : Packing) (infos : SendInfos) :
    Option.Rel Alike (storeObject packing infos s₁) (storeObject packing infos s₂) := by
  unfold storeObject
  cases packing with
  | packed =>
    exact .some ⟨congrArg (fun s : SchedState => { s with
        keyValMap := s.keyValMap.set infos.objName infos.body
        keyLenMap := s.keyLenMap.set infos.objName infos.body.length }) h.others,
      h.directDeps, h.triggers⟩
  | sharedMemory =>
    cases Bytes.stoi infos.body with
    | none => exact .none
    | some size =>
      exact .some ⟨congrArg (fun s : SchedState => { s with
        keyLenMap := s.keyLenMap.set infos.objName (uint32OfInt size).toNat }) h.others,
        h.directDeps, h.triggers⟩
  | other => exact .some h

theorem Alike.bare_send (h : Alike s₁ s₂) (now : Stamp) (packing : Packing)
    (infos : SendInfos) :
    (sendEphemeral env now packing infos s₂).map bare.apply =
      (sendEphemeral env now packing infos s₁).map bare.apply := by
  have hstore := h.store packing infos
  unfold sendEphemeral
  simp only [noForward_option]
  generalize storeObject packing infos s₁ = stored₁ at hstore ⊢
  generalize storeObject packing infos s₂ = stored₂ at hstore ⊢
  cases hstore with
  | none => rfl
  | @some s₁ s₂ h =>
    have happ : s₂.funcAppMap = s₁.funcAppMap := (congrArg SchedState.funcAppMap h.others :)
    have hdeps := congrFun h.directDeps infos.srcFunction
    unfold SchedState.directDepsOf SchedState.appInfo at hdeps
    rw [happ] at hdeps
    simp only [Option.bind_eq_bind, Option.bind_some, happ, hdeps]
    split
    · rw [← Reframing.invokeDirectly_apply env bare_keeps, h.others,
        Reframing.invokeDirectly_apply env bare_keeps]
    · split
      · exact h.put env ..
      · exact congrArg some h.others

theorem Alike.send (h : Alike s₁ s₂) (send : Send) :
    Option.Rel Alike (sendEphemeral env send.now send.packing send.infos s₁)
      (sendEphemeral env send.now send.packing send.infos s₂) := by
  have hbare := h.bare_send env send.now send.packing send.infos
  cases hs₁ : sendEphemeral env send.now send.packing send.infos s₁ with
  | none =>
    rw [hs₁] at hbare
    rw [Option.map_eq_none_iff.mp hbare]
    exact .none
  | some s₁' =>
    rw [hs₁] at hbare
    obtain ⟨s₂', hs₂, hothers⟩ := Option.map_eq_some_iff.mp hbare
    rw [hs₂]
    obtain ⟨silent, hsilent, htriggers⟩ := h.triggers
    refine .some ⟨hothers, ?_, ?_⟩
    · rw [sendEphemeral_directDepsOf hs₂, h.directDeps, sendEphemeral_directDepsOf hs₁]
    · have hafter₁ := sendEphemeral_sameActions hs₁
      have hafter₂ := sendEphemeral_sameActions hs₂
      rw [h.directDeps] at hafter₂
      obtain ⟨silent', hsilent', hbeside⟩ :=
        sameActions_beside_silent hsilent htriggers (send.check s₁.directDepsOf)
      refine ⟨silent', hsilent', fun b => (hafter₂ b).trans ((hbeside b).trans ?_)⟩
      rw [List.map_append, List.map_append, hafter₁ b]

theorem Alike.starts (h : Alike s₁ s₂) (sends : List Send) :
    startedBy env sends s₂ = startedBy env sends s₁ := by
  induction sends generalizing s₁ s₂ with
  | nil => rfl
  | cons send sends ih =>
    have hstarts : send.starts s₂ = send.starts s₁ := by
      unfold Send.starts
      rw [h.directDeps, (h.arrival send.now send.object).1]
    have hsend := h.send env send
    unfold startedBy
    generalize sendEphemeral env send.now send.packing send.infos s₁ = sent₁ at hsend ⊢
    generalize sendEphemeral env send.now send.packing send.infos s₂ = sent₂ at hsend ⊢
    cases hsend with
    | none => rfl
    | some h' => rw [Option.bind_some, Option.bind_some, hstarts, ih h']

end Alike

end Pheromone.Scheduler
