import Pheromone.Cluster.Coordinators
import Pheromone.Coordinator.Proofs.TriggerOps
import Pheromone.Coordinator.Proofs.TriggerPass
import Pheromone.Scheduler.Proofs.DataAccess

/-!
# Operations without effect

A trigger operation is broadcast whatever came of it.  What the schedulers make of the
update of an operation that had no effect.
-/

namespace Pheromone.Cluster

open Lib Common Coordinator Scheduler

variable {ip : Address} {k' : CoordsCluster} {outs : List CoordOut}
  {result : CoordState × List CoordOut}

variable {k : CoordsCluster} {request : TriggerOperationRequest} {c c' : CoordState}
  {e : CoordEvent} {now : TimePoint}

/-- What schedulers know of applications, buckets and triggers. -/
structure SameRegistry (s s' : SchedState) : Prop where
  appCoords : s'.appCoordMap = s.appCoordMap
  bucketCoords : s'.bucketCoordMap = s.bucketCoordMap
  appInfos : s'.appInfoMap = s.appInfoMap
  funcApps : s'.funcAppMap = s.funcAppMap
  bucketApps : s'.bucketAppMap = s.bucketAppMap
  triggers : ∀ bucket, s'.triggersOf bucket = s.triggersOf bucket
  timeouts : s'.funcTriggerTimeoutMap = s.funcTriggerTimeoutMap

/-! ## The update of a rejected operation -/

def withAppCoord (app : Name) (coord : HandlerThread) (s : SchedState) : SchedState :=
  { s with appCoordMap := s.appCoordMap.set app coord }

def rejectedUpdate (coord : HandlerThread) (request : TriggerOperationRequest) : UpdateCoordMsg :=
  { ip := coord.ip, threadId := coord.tid, appName := request.appName }

theorem handleUpdate_rejectedUpdate (now : Stamp) (coord : HandlerThread)
    (request : TriggerOperationRequest) (s : SchedState) :
    handleUpdate now (rejectedUpdate coord request) s =
      some (withAppCoord request.appName coord s) := rfl

theorem sameRegistry_withAppCoord_iff (s : SchedState) (app : Name) (coord : HandlerThread) :
    SameRegistry s (withAppCoord app coord s) ↔ s.appCoordMap app = some coord := by
  rw [← Map.set_eq_self_iff]
  constructor
  · intro h
    exact h.appCoords
  · intro h
    exact ⟨h, rfl, rfl, rfl, rfl, fun _ => rfl, rfl⟩

theorem deleteTrigger_missing (h : (c.triggersOf request.bucketName).any
      (fun t => t.triggerName = request.triggerName) = false) :
    (deleteTrigger c request).2 = triggerMessage c request := by
  have hkept : ((c.triggersOf request.bucketName).filter
      fun t => t.triggerName ≠ request.triggerName) = c.triggersOf request.bucketName := by
    rw [List.filter_eq_self]
    intro t ht
    have hne := List.any_eq_false.mp h t ht
    simpa using hne
  unfold deleteTrigger
  simp only [hkept, lt_irrefl, if_false]

theorem updatesFor_rejected (h : triggerOpHandler now c request = some (c', outs))
    (hnone : hasEffect c request = false) (ip : Address) :
    updatesFor ip outs =
      if ip ∈ c.nodeStatusMap.keys then [triggerMessage c request] else [] := by
  rw [triggerOpHandler.eq_def] at h
  unfold hasEffect at hnone
  cases hop : request.operationType with
  | unrecognized number =>
    simp only [hop] at h
    cases h
    exact updatesFor_broadcast ip c _
  | addTrigger =>
    cases hbucket : c.bucketAppMap request.bucketName with
    | none =>
      simp only [hop, hbucket] at h
      cases h
      exact updatesFor_broadcast ip c _
    | some owner => simp [hop, hbucket] at hnone
  | deleteTrigger =>
    cases hbucket : c.bucketAppMap request.bucketName with
    | none =>
      simp only [hop, hbucket] at h
      cases h
      exact updatesFor_broadcast ip c _
    | some owner =>
      simp only [hop, hbucket] at h
      cases h
      simp only [hop, hbucket, Option.isSome_some, Bool.true_and] at hnone
      have hsent := updatesFor_broadcast ip (deleteTrigger c request).1
        (deleteTrigger c request).2
      rw [deleteTrigger_missing hnone] at hsent
      rw [deleteTrigger_missing hnone]
      exact hsent

/-! ## Coordinator threads -/

theorem notifyParts_thread {randR : RandR} {request : KeyNotifyRequest}
    {addresses : List BucketKeyAddress} {parts : List (BucketKey × List CoordOut)}
    (h : notifyParts randR now request addresses c = some (c', parts)) :
    c'.privateIp = c.privateIp ∧ c'.threadId = c.threadId := by
  refine (notifyParts_invariant
    (Q := fun c₁ => c₁.privateIp = c.privateIp ∧ c₁.threadId = c.threadId)
    (R := fun _ => True) ?_ h ⟨rfl, rfl⟩).1
  intro c₁ address ip nodeIp c₂ outs _ hc₁ _ hchecked
  have hspec := checkTriggers_checked hchecked
  exact ⟨⟨hspec.privateIp.trans hc₁.1, hspec.threadId.trans hc₁.2⟩, trivial⟩

theorem handleMessage_thread {randR : RandR} (h : handleMessage randR c e = some (c', outs)) :
    c'.privateIp = c.privateIp ∧ c'.threadId = c.threadId := by
  have hrecords : SameRecords c c' → c'.privateIp = c.privateIp ∧ c'.threadId = c.threadId := by
    rintro ⟨_, _, _, rfl⟩
    exact ⟨rfl, rfl⟩
  cases e with
  | notify now request =>
    obtain ⟨parts, hparts, -⟩ := notifyHandler_eq_parts h
    exact notifyParts_thread hparts
  | bucketOp request =>
    have hc' : (bucketOpHandler c request).1 = c' := congrArg Prod.fst (Option.some.inj h)
    exact hrecords (hc' ▸ bucketOpHandler_records c request)
  | triggerOp now request => exact hrecords (triggerOpHandler_records h)
  | register now registration => exact hrecords (appRegisterHandler_records h)
  | query | status | call | rehash =>
    obtain ⟨nodes, seed, rfl⟩ := handleMessage_quiet h trivial
    exact ⟨rfl, rfl⟩

/-! ## Runs -/

namespace CoordsCluster

def RejectedSent (k : CoordsCluster) : Prop :=
  ∀ thread ip, ∀ sent ∈ k.channels thread ip, ∀ request, sent.rejected = some request →
    sent.msg = rejectedUpdate (k.handlerThread thread) request

variable {env : Address → SchedEnv} {randR : RandR}

theorem handlerThread_handled {thread : Nat} {rejected : Option TriggerOperationRequest}
    (h : handleMessage randR (k.coords thread) e = some result) (thread' : Nat) :
    (k.handled thread rejected result).handlerThread thread' = k.handlerThread thread' := by
  obtain ⟨hip, htid⟩ := handleMessage_thread h
  unfold handlerThread handled
  simp only
  by_cases hthread : thread' = thread
  · subst hthread
    rw [Function.update_self, hip, htid]
  · rw [Function.update_of_ne hthread]

theorem sent_rejected {thread : Nat} (h : handleMessage randR (k.coords thread) e = some result)
    (hrejected : rejectedBy (k.coords thread) e = some request) (ip : Address) :
    ∀ msg ∈ updatesFor ip result.2, msg = rejectedUpdate (k.handlerThread thread) request := by
  cases e with
  | triggerOp now request' =>
    simp only [rejectedBy] at hrejected
    by_cases heffect : hasEffect (k.coords thread) request' = true
    · rw [if_pos heffect] at hrejected
      cases hrejected
    · rw [if_neg heffect] at hrejected
      cases hrejected
      have hsent := updatesFor_rejected h (Bool.eq_false_of_not_eq_true heffect) ip
      intro msg hmsg
      rw [hsent] at hmsg
      split at hmsg
      · exact List.mem_singleton.mp hmsg
      · cases hmsg
  | notify | query | bucketOp | status | register | call | rehash => cases hrejected

theorem step_rejectedSent {e : CoordsEvent} (hk : k.RejectedSent)
    (h : step env randR k e = some k') : k'.RejectedSent := by
  cases e with
  | coord thread e =>
    obtain ⟨result, hresult, rfl⟩ := Option.map_eq_some_iff.mp h
    intro thread' ip sent hsent request hrejected
    rw [handlerThread_handled hresult]
    unfold handled at hsent
    simp only at hsent
    by_cases hthread : thread' = thread
    · subst hthread
      rw [Function.update_self] at hsent
      rcases List.mem_append.mp hsent with hold | hnew
      · exact hk thread' ip sent hold request hrejected
      · obtain ⟨msg, hmsg, rfl⟩ := List.mem_map.mp hnew
        exact sent_rejected hresult hrejected ip msg hmsg
    · rw [Function.update_of_ne hthread] at hsent
      exact hk thread' ip sent hsent request hrejected
  | node ip e other =>
    obtain ⟨s, -, rfl⟩ := Option.map_eq_some_iff.mp h
    exact hk
  | deliver thread ip now =>
    simp only [step] at h
    cases hchannel : k.channels thread ip with
    | nil =>
      rw [hchannel] at h
      cases h
      exact hk
    | cons sent rest =>
      rw [hchannel] at h
      obtain ⟨s, -, rfl⟩ := Option.map_eq_some_iff.mp h
      intro thread' ip' sent' hsent' request hrejected
      have hmem : sent' ∈ k.channels thread' ip' := by
        simp only at hsent'
        by_cases hthread : thread' = thread
        · subst hthread
          rw [Function.update_self] at hsent'
          exact mem_of_mem_update_rest hchannel hsent'
        · rw [Function.update_of_ne hthread] at hsent'
          exact hsent'
      exact hk thread' ip' sent' hmem request hrejected

theorem run_rejectedSent {coords : Nat → CoordState} {nodes : Address → SchedState}
    {es : List CoordsEvent} (hrun : run (step env randR) (start coords nodes) es = some k) :
    k.RejectedSent :=
  @run_invariant _ _ (step env randR) RejectedSent (fun _ _ => True)
    (fun _ _ _ hk _ hstep => step_rejectedSent hk hstep) _ _ _
    (fun _ _ _ hsent => absurd hsent List.not_mem_nil) (along_true _ es) hrun

theorem channels_rejected {thread : Nat}
    (h : step env randR k (.coord thread (.triggerOp now request)) = some k')
    (hrejected : ¬ TookEffect (k.coords thread) (k'.coords thread) request)
    (hip : ip ∈ (k.coords thread).nodeStatusMap.keys) :
    k'.channels thread ip = k.channels thread ip ++
      [{ msg := rejectedUpdate (k.handlerThread thread) request, rejected := some request }] := by
  obtain ⟨⟨c', outs⟩, hresult, rfl⟩ := Option.map_eq_some_iff.mp h
  have hhandler : triggerOpHandler now (k.coords thread) request = some (c', outs) := hresult
  have hcoord : (k.handled thread (rejectedBy (k.coords thread) (.triggerOp now request))
      (c', outs)).coords thread = c' := Function.update_self _ _ _
  rw [hcoord, tookEffect_iff hhandler] at hrejected
  have hsent := updatesFor_rejected hhandler (Bool.eq_false_of_not_eq_true hrejected) ip
  rw [if_pos hip] at hsent
  unfold handled
  simp only [Function.update_self, hsent, rejectedBy, if_neg hrejected, List.map_singleton]
  rfl

theorem deliver_rejected (hk : k.RejectedSent) {thread : Nat} {sent : SentUpdate}
    {rest : List SentUpdate} (hchannel : k.channels thread ip = sent :: rest)
    (hrejected : sent.rejected = some request) (now : Stamp) :
    ∃ k', step env randR k (.deliver thread ip now) = some k' ∧
      (∀ ip', ip' ≠ ip → k'.nodes ip' = k.nodes ip') ∧
      (SameRegistry (k.nodes ip) (k'.nodes ip) ↔
        (k.nodes ip).appCoordMap request.appName = some (k.handlerThread thread)) := by
  have hmsg : sent.msg = rejectedUpdate (k.handlerThread thread) request :=
    hk thread ip sent (by rw [hchannel]; exact List.mem_cons_self) request hrejected
  have hupdate : handleUpdate now sent.msg (k.nodes ip) =
      some (withAppCoord request.appName (k.handlerThread thread) (k.nodes ip)) := by
    rw [hmsg]
    exact handleUpdate_rejectedUpdate now (k.handlerThread thread) request (k.nodes ip)
  have hstep : step env randR k (.deliver thread ip now) = some
      { k with
        nodes := Function.update k.nodes ip
          (withAppCoord request.appName (k.handlerThread thread) (k.nodes ip))
        channels := Function.update k.channels thread
          (Function.update (k.channels thread) ip rest) } := by
    simp only [step, hchannel, hupdate, Option.map_some]
  refine ⟨_, hstep, ?_, ?_⟩
  · intro ip' hne
    exact Function.update_of_ne hne _ _
  · simp only [Function.update_self]
    exact sameRegistry_withAppCoord_iff _ _ _

/-- In every state of a cluster, an operation without effect is broadcast to the nodes of
its thread; a scheduler that receives the broadcast is as before exactly if it takes this
thread for the one that manages the application. -/
theorem rejected_operation_unseen_iff {coords : Nat → CoordState} {nodes : Address → SchedState}
    {es : List CoordsEvent} {k : CoordsCluster}
    (hrun : run (step env randR) (start coords nodes) es = some k) (thread : Nat) (ip : Address)
    (request : TriggerOperationRequest) :
    (∀ now k', step env randR k (.coord thread (.triggerOp now request)) = some k' →
      ¬ TookEffect (k.coords thread) (k'.coords thread) request →
      ip ∈ (k.coords thread).nodeStatusMap.keys →
        ∃ sent, sent.rejected = some request ∧
          k'.channels thread ip = k.channels thread ip ++ [sent]) ∧
    (∀ sent rest, k.channels thread ip = sent :: rest → sent.rejected = some request →
      ∀ now, ∃ k', step env randR k (.deliver thread ip now) = some k' ∧
        (∀ ip', ip' ≠ ip → k'.nodes ip' = k.nodes ip') ∧
        (SameRegistry (k.nodes ip) (k'.nodes ip) ↔
          (k.nodes ip).appCoordMap request.appName = some (k.handlerThread thread))) := by
  constructor
  · intro now k' hstep hrejected hip
    exact ⟨_, rfl, channels_rejected hstep hrejected hip⟩
  · intro sent rest hchannel hrejected now
    exact deliver_rejected (run_rejectedSent hrun) hchannel hrejected now

def twoCoords : CoordsCluster :=
  start
    (fun thread => updateStatus
      (CoordState.new (if thread = 0 then Bytes.lit "10.0.0.1" else Bytes.lit "10.0.0.3") 0 1
        Nat.one_pos 0)
      { ip := Bytes.lit "10.0.0.2", availExecutors := 1 })
    (fun _ => SchedState.new 0 1)

def rejectionEvents (thread : Nat) : List CoordsEvent :=
  [.coord 0 (.register 0 { appName := Bytes.lit "app", functions := [Bytes.lit "f"]
                           dependencies := [] }),
    .deliver 0 (Bytes.lit "10.0.0.2") 0,
    .coord thread (.triggerOp 0
      { operationType := .addTrigger, appName := Bytes.lit "app", bucketName := Bytes.lit "none"
        triggerName := Bytes.lit "x" })]

def twoCoordsStep : CoordsCluster → CoordsEvent → Option CoordsCluster :=
  step (fun _ => oneIoThread) fun seed => (0, seed)

theorem rejected_operation_unseen_own :
    ∃ k, run twoCoordsStep twoCoords (rejectionEvents 0) = some k ∧
      (k.nodes (Bytes.lit "10.0.0.2")).appCoordMap (Bytes.lit "app") =
        some (k.handlerThread 0) ∧
      ∃ k', twoCoordsStep k (.deliver 0 (Bytes.lit "10.0.0.2") 0) = some k' ∧
        SameRegistry (k.nodes (Bytes.lit "10.0.0.2")) (k'.nodes (Bytes.lit "10.0.0.2")) := by
  obtain ⟨k, hrun⟩ := Option.isSome_iff_exists.mp
    (show (run twoCoordsStep twoCoords (rejectionEvents 0)).isSome from rfl)
  have happ : (k.nodes (Bytes.lit "10.0.0.2")).appCoordMap (Bytes.lit "app") =
      some (k.handlerThread 0) := by
    cases hrun
    decide +kernel
  obtain ⟨sent, rest, hchannel, hrejected⟩ : ∃ sent rest,
      k.channels 0 (Bytes.lit "10.0.0.2") = sent :: rest ∧
        sent.rejected = some
          { operationType := .addTrigger, appName := Bytes.lit "app"
            bucketName := Bytes.lit "none", triggerName := Bytes.lit "x" } := by
    cases hrun
    exact ⟨_, _, rfl, rfl⟩
  obtain ⟨k', hstep, -, hsame⟩ :=
    (rejected_operation_unseen_iff hrun 0 _ _).2 sent rest hchannel hrejected 0
  exact ⟨k, hrun, happ, k', hstep, hsame.mpr happ⟩

def knownCoord (es : List CoordsEvent) : Option (Option HandlerThread) :=
  (run twoCoordsStep twoCoords es).map fun k =>
    (k.nodes (Bytes.lit "10.0.0.2")).appCoordMap (Bytes.lit "app")

/-- A trigger operation that the second thread answers with `BUCKET_NE` takes the
application away from the first thread, on the scheduler. -/
theorem rejected_operation_reroutes :
    hasEffect (twoCoords.coords 1)
        { operationType := .addTrigger, appName := Bytes.lit "app"
          bucketName := Bytes.lit "none", triggerName := Bytes.lit "x" } = false ∧
      knownCoord (rejectionEvents 1) = some (some { ip := Bytes.lit "10.0.0.1", tid := 0 }) ∧
      knownCoord (rejectionEvents 1 ++ [.deliver 1 (Bytes.lit "10.0.0.2") 0]) =
        some (some { ip := Bytes.lit "10.0.0.3", tid := 0 }) := by
  decide +kernel

end CoordsCluster

end Pheromone.Cluster
