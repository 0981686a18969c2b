import Pheromone.Cluster.Buckets
import Pheromone.Cluster.Proofs.TriggerAgreement
import Pheromone.Cluster.Proofs.TriggerRuns
import Pheromone.Coordinator.Proofs.Deletion
import Pheromone.Scheduler.Proofs.Told

/-!
# Deleted buckets

`DELETE_BUCKET` tells no node of the deletion and leaves the addresses of the bucket's
objects on the coordinator.  So a deleted bucket is stopped when no node has kept a
trigger of it, and exactly if no object of it was ever recorded.
-/

namespace Pheromone.Cluster

open Lib Common Coordinator Scheduler

variable {bucket : Bucket} {c c' : CoordState} {msg : UpdateCoordMsg} {s : SchedState}
  {ip : Address}

/-! ## Updates that bring no trigger -/

def Spares (bucket : Bucket) (msg : UpdateCoordMsg) : Prop :=
  msg.msgType = 0 → signaturesFor bucket msg.triggers = []

theorem TriggerView.erase_empty {view view' : TriggerView} {bucket' : Bucket} {name : Name}
    (h : view.erase bucket' name = some view') (hview : view bucket = []) : view' bucket = [] := by
  unfold TriggerView.erase at h
  split at h
  · cases h
    by_cases heq : bucket = bucket'
    · rw [heq] at hview ⊢
      rw [Function.update_self, hview]
      rfl
    · rw [Function.update_of_ne heq]
      exact hview
  · cases h

theorem TriggerView.update_empty {view view' : TriggerView} (h : view.update msg = some view')
    (hmsg : Spares bucket msg) (hview : view bucket = []) : view' bucket = [] := by
  unfold TriggerView.update at h
  split at h
  next htype =>
    split at h
    · cases h
      simp only [hview, hmsg htype, List.append_nil]
    · cases h
  next =>
    exact foldlM_preserves (Q := fun view : TriggerView => view bucket = [])
      (fun _ _ _ _ hstep hview => TriggerView.erase_empty hstep hview) h hview
  next =>
    cases h
    exact hview

theorem handleUpdate_untriggered {now : Stamp} {s' : SchedState}
    (h : handleUpdate now msg s = some s') (hmsg : Spares bucket msg)
    (hs : s.triggersOf bucket = []) : s'.triggersOf bucket = [] := by
  have hview := handleUpdate_signatures now msg s
  rw [h, Option.map_some] at hview
  have hempty : s.signatures bucket = [] := List.map_eq_nil_iff.mpr hs
  exact List.map_eq_nil_iff.mp (TriggerView.update_empty hview.symm hmsg hempty)

theorem nodeStep_untriggered {env : SchedEnv} {e : NodeEvent} {s' : SchedState}
    (h : nodeStep env s e = some s') (he : ¬ e.IsUpdate) (hs : s.triggersOf bucket = []) :
    s'.triggersOf bucket = [] := by
  rw [← blanks_eq_nil_iff] at hs ⊢
  rw [nodeStep_blanks h he]
  exact hs

theorem notifyParts_updates {randR : RandR} {now : TimePoint} {request : KeyNotifyRequest}
    {addresses : List BucketKeyAddress} {parts : List (BucketKey × List CoordOut)}
    (h : notifyParts randR now request addresses c = some (c', parts)) :
    ∀ part ∈ parts, ∀ address msg, .update address msg ∈ part.2 → msg.msgType = 1 := by
  refine (notifyParts_invariant (Q := fun _ => True)
    (R := fun part => ∀ address msg, .update address msg ∈ part.2 → msg.msgType = 1)
    ?_ h trivial).2
  intro c address ip nodeIp c₁ outs _ _ _ hchecked
  refine ⟨trivial, fun address msg hmsg => ?_⟩
  obtain ⟨before, hbefore, hnone⟩ := (checkTriggers_checked hchecked).updates
  simp only [hbefore, List.mem_append] at hmsg
  rcases hmsg with hmsg | hmsg
  · exact absurd trivial (hnone _ hmsg)
  · unfold clearOuts at hmsg
    split at hmsg
    · exact absurd hmsg List.not_mem_nil
    · obtain ⟨_, -, heq⟩ := List.mem_map.mp hmsg
      cases heq
      rfl

theorem mem_updatesOf {outs : List CoordOut} {sent : Address × UpdateCoordMsg} :
    sent ∈ updatesOf outs ↔ .update sent.1 sent.2 ∈ outs := by
  unfold updatesOf
  rw [List.mem_filterMap]
  constructor
  · rintro ⟨out, hout, heq⟩
    split at heq
    · cases heq
      exact hout
    · cases heq
  · exact fun hmem => ⟨_, hmem, rfl⟩

theorem mem_broadcast {msg' : UpdateCoordMsg} {address : Address}
    (h : .update address msg' ∈ broadcast c msg) : msg' = msg := by
  obtain ⟨_, -, heq⟩ := List.mem_map.mp h
  cases heq
  rfl

theorem spares_triggerMessage (bucket : Bucket) (c : CoordState)
    (request : TriggerOperationRequest) : Spares bucket (triggerMessage c request) :=
  fun _ => rfl

theorem triggerOpResult_spares {now : TimePoint} {request : TriggerOperationRequest}
    (h : triggerOpResult now c request = some (c', msg)) (hnone : c.bucketAppMap bucket = none) :
    Spares bucket msg := by
  unfold triggerOpResult at h
  split at h
  next hsome =>
    have hne : request.bucketName ≠ bucket := by
      intro heq
      rw [heq, hnone] at hsome
      cases hsome
    obtain ⟨pointer, -, -, -, -, ⟨-, rfl⟩ | ⟨-, rfl⟩⟩ := addTrigger_cases h
    · exact spares_triggerMessage bucket c request
    · intro _
      simp [signaturesFor, addedEntity, hne]
  next =>
    cases h
    split
    · intro htype
      cases htype
    · exact spares_triggerMessage bucket c request
  next =>
    cases h
    exact spares_triggerMessage bucket c request

theorem bucketOpHandler_response (c : CoordState) (request : BucketOperationRequest) :
    ∃ response, (bucketOpHandler c request).2 =
      [.bucketResponse request.responseAddress response] := by
  unfold bucketOpHandler
  simp only
  split
  · split <;> exact ⟨_, rfl⟩
  · split <;> exact ⟨_, rfl⟩
  · exact ⟨_, rfl⟩

theorem sendScheduled_updates (randR : RandR) (ioThreadNum : Nat) (seed : UInt32)
    (scheduled : List (Address × FunctionCall)) :
    ∀ out ∈ (sendScheduled randR ioThreadNum seed scheduled).1, ¬ out.IsUpdate := by
  induction scheduled generalizing seed with
  | nil => exact fun _ hout => absurd hout List.not_mem_nil
  | cons entry rest ih =>
    intro out hout
    rcases List.mem_cons.mp hout with rfl | hout
    · exact id
    · exact ih _ out hout

theorem funcCallHandler_updates {randR : RandR} {call : FunctionCall}
    {result : CoordState × List CoordOut} (h : funcCallHandler randR c call = some result) :
    ∀ out ∈ result.2, ¬ out.IsUpdate := by
  obtain ⟨scheduled, -, rfl⟩ := Option.map_eq_some_iff.mp h
  simp only
  split
  · simp only
    split
    · exact fun _ hout => absurd hout List.not_mem_nil
    · intro out hout
      rw [List.mem_singleton.mp hout]
      exact id
  · exact sendScheduled_updates randR c.ioThreadNum _ _

theorem handleMessage_spares {randR : RandR} {e : CoordEvent} {outs : List CoordOut}
    (h : handleMessage randR c e = some (c', outs)) (hc : c.TriggersOwned)
    (hcreate : ¬ e.Creates bucket) (hnone : c.bucketAppMap bucket = none) :
    ∀ sent ∈ updatesOf outs, Spares bucket sent.2 := by
  intro sent hsent
  rw [mem_updatesOf] at hsent
  cases e with
  | notify now request =>
    obtain ⟨parts, hparts, rfl⟩ := notifyHandler_eq_parts h
    obtain ⟨part, hpart, hmem⟩ := List.mem_flatMap.mp hsent
    intro htype
    rw [notifyParts_updates hparts part hpart _ _ hmem] at htype
    cases htype
  | query request =>
    cases h
    cases List.mem_singleton.mp hsent
  | bucketOp request =>
    obtain rfl : (bucketOpHandler c request).2 = outs := congrArg Prod.snd (Option.some.inj h)
    obtain ⟨response, heq⟩ := bucketOpHandler_response c request
    rw [heq] at hsent
    cases List.mem_singleton.mp hsent
  | triggerOp now request =>
    obtain ⟨response, heq⟩ := triggerOpHandler_eq now c request
    obtain ⟨result, hresult, hout⟩ := Option.map_eq_some_iff.mp (heq.symm.trans h)
    cases hout
    rcases List.mem_cons.mp hsent with hhead | hbroadcast
    · cases hhead
    · rw [mem_broadcast hbroadcast]
      exact triggerOpResult_spares hresult hnone
  | status update =>
    cases h
    exact absurd hsent List.not_mem_nil
  | register now registration =>
    obtain ⟨announced, rfl, hannounced⟩ := appRegisterHandler_announced h
    rw [mem_broadcast hsent]
    have hregisters := appRegisterHandler_registers h
    have hempty : coordView c' bucket = [] := by
      have howned : c'.TriggersOwned := hregisters.triggersOwned hc
      have hunowned := @handleMessage_unowned randR _ _ (.register now registration) _ _ h hc
        hcreate hnone
      unfold coordView
      rw [triggersOf_unowned howned hunowned]
      rfl
    rw [hannounced.view] at hempty
    exact fun _ => (List.append_eq_nil_iff.mp hempty).2
  | call call => exact absurd trivial (funcCallHandler_updates h _ hsent)
  | rehash m =>
    cases h
    exact absurd hsent List.not_mem_nil

namespace BucketCluster

/-! ## Steps -/

section Steps

variable {env : Address → SchedEnv} {randR : RandR} {k k' : BucketCluster} {e : BucketEvent}
  {bucket : Bucket}

theorem step_cases (h : step env randR k e = some k') :
    (∃ message outs, k.received e = some message ∧
        handleMessage randR k.coord message = some (k'.coord, outs) ∧ k'.nodes = k.nodes ∧
        k'.updates = k.updates ++ updatesOf outs) ∨
      k.received e = none ∧ k'.coord = k.coord ∧
        ((∃ ip event s, ¬ event.IsUpdate ∧ nodeStep (env ip) (k.nodes ip) event = some s ∧
            k'.nodes = Function.update k.nodes ip s ∧ k'.updates = k.updates) ∨
          (∃ ip now sent s, sent ∈ k.updates ∧ handleUpdate now sent.2 (k.nodes ip) = some s ∧
            k'.nodes = Function.update k.nodes ip s ∧ k'.updates ⊆ k.updates) ∨ k' = k) := by
  cases e with
  | coord message other =>
    obtain ⟨⟨c, outs⟩, hmessage, rfl⟩ := Option.map_eq_some_iff.mp h
    exact .inl ⟨message, outs, rfl, hmessage, rfl, rfl⟩
  | notify ip now =>
    simp only [step] at h
    split at h
    next hempty =>
      cases h
      exact .inr ⟨by simp [received, hempty], rfl, .inr (.inr rfl)⟩
    next sent hsent =>
      obtain ⟨⟨c, outs⟩, hmessage, rfl⟩ := Option.map_eq_some_iff.mp h
      exact .inl ⟨.notify now sent.2, outs, by simp [received, hsent], hmessage, rfl, rfl⟩
  | node ip event other =>
    obtain ⟨s, hs, rfl⟩ := Option.map_eq_some_iff.mp h
    exact .inr ⟨rfl, rfl, .inl ⟨ip, event, s, other, hs, rfl, rfl⟩⟩
  | update ip now =>
    simp only [step] at h
    split at h
    · cases h
      exact .inr ⟨rfl, rfl, .inr (.inr rfl)⟩
    next sent hsent =>
      obtain ⟨s, hs, rfl⟩ := Option.map_eq_some_iff.mp h
      exact .inr ⟨rfl, rfl, .inr (.inl ⟨ip, now, sent, s, List.mem_of_find?_eq_some hsent, hs,
        rfl, List.eraseP_subset⟩)⟩

theorem step_triggersOwned (h : step env randR k e = some k') (hk : k.coord.TriggersOwned) :
    k'.coord.TriggersOwned := by
  rcases step_cases h with ⟨message, outs, -, hmessage, -⟩ | ⟨-, hcoord, -⟩
  · refine (@coordStep_owners randR k.coord k'.coord message ?_ hk).1
    rw [coordStep, hmessage]
    rfl
  · rw [hcoord]
    exact hk

def Creates (bucket : Bucket) : BucketEvent → Prop
  | .coord message _ => message.Creates bucket
  | _ => False

theorem received_creates {message : CoordEvent} (h : k.received e = some message)
    (hcreate : ¬ Creates bucket e) : ¬ message.Creates bucket := by
  cases e with
  | coord message other =>
    cases h
    exact hcreate
  | notify ip now =>
    obtain ⟨request, -, rfl⟩ := Option.map_eq_some_iff.mp h
    exact id
  | node ip event other => cases h
  | update ip now => cases h

structure Ownerless (bucket : Bucket) (k : BucketCluster) : Prop where
  owned : k.coord.TriggersOwned
  unowned : k.coord.bucketAppMap bucket = none

theorem step_ownerless (hk : k.Ownerless bucket) (hcreate : ¬ Creates bucket e)
    (h : step env randR k e = some k') : k'.Ownerless bucket := by
  refine ⟨step_triggersOwned h hk.owned, ?_⟩
  rcases step_cases h with ⟨message, outs, hreceived, hmessage, -⟩ | ⟨-, hcoord, -⟩
  · exact handleMessage_unowned hmessage hk.owned (received_creates hreceived hcreate) hk.unowned
  · rw [hcoord]
    exact hk.unowned

structure Untriggered (bucket : Bucket) (k : BucketCluster) : Prop extends k.Ownerless bucket where
  nodes : ∀ ip, (k.nodes ip).triggersOf bucket = []
  spared : ∀ sent ∈ k.updates, Spares bucket sent.2

theorem untriggered_update {nodes : Address → SchedState}
    (hnodes : ∀ ip, (nodes ip).triggersOf bucket = []) (hs : s.triggersOf bucket = []) :
    ∀ ip', (Function.update nodes ip s ip').triggersOf bucket = [] :=
  (Function.forall_update_iff nodes fun _ s => s.triggersOf bucket = []).mpr
    ⟨hs, fun ip' _ => hnodes ip'⟩

theorem step_untriggered (hk : k.Untriggered bucket) (hcreate : ¬ Creates bucket e)
    (h : step env randR k e = some k') : k'.Untriggered bucket := by
  suffices hrest : (∀ ip, (k'.nodes ip).triggersOf bucket = []) ∧
      ∀ sent ∈ k'.updates, Spares bucket sent.2 from
    ⟨step_ownerless hk.toOwnerless hcreate h, hrest.1, hrest.2⟩
  rcases step_cases h with ⟨message, outs, hreceived, hmessage, hnodes, hupdates⟩ |
    ⟨-, -, ⟨ip, event, s, hother, hs, hnodes, hupdates⟩ |
      ⟨ip, now, sent, s, hpending, hs, hnodes, hupdates⟩ | rfl⟩
  · rw [hnodes]
    refine ⟨hk.nodes, fun sent hsent => ?_⟩
    rw [hupdates, List.mem_append] at hsent
    rcases hsent with hold | hnew
    · exact hk.spared sent hold
    · exact handleMessage_spares hmessage hk.owned (received_creates hreceived hcreate)
        hk.unowned sent hnew
  · rw [hnodes, hupdates]
    exact ⟨untriggered_update hk.nodes (nodeStep_untriggered hs hother (hk.nodes ip)), hk.spared⟩
  · rw [hnodes]
    exact ⟨untriggered_update hk.nodes
        (handleUpdate_untriggered hs (hk.spared sent hpending) (hk.nodes ip)),
      fun sent hsent => hk.spared sent (hupdates hsent)⟩
  · exact ⟨hk.nodes, hk.spared⟩

def HappensOn (ip : Address) : BucketEvent → Prop
  | .node ip' _ _ | .update ip' _ => ip' = ip
  | _ => False

theorem step_elsewhere (h : step env randR k e = some k') (he : ¬ HappensOn ip e) :
    k'.nodes ip = k.nodes ip := by
  cases e with
  | coord message other =>
    obtain ⟨result, -, rfl⟩ := Option.map_eq_some_iff.mp h
    rfl
  | notify ip' now =>
    simp only [step] at h
    split at h
    · cases h
      rfl
    · obtain ⟨result, -, rfl⟩ := Option.map_eq_some_iff.mp h
      rfl
  | node ip' event other =>
    obtain ⟨s, -, rfl⟩ := Option.map_eq_some_iff.mp h
    exact Function.update_of_ne (Ne.symm he) _ _
  | update ip' now =>
    simp only [step] at h
    split at h
    · cases h
      rfl
    · obtain ⟨s, -, rfl⟩ := Option.map_eq_some_iff.mp h
      exact Function.update_of_ne (Ne.symm he) _ _

def KeepsUnknown (bucket : Bucket) (k : BucketCluster) (e : BucketEvent) : Prop :=
  ∀ message, k.received e = some message → Unrecorded bucket k.coord message

theorem step_addresses (h : step env randR k e = some k') (hk : k.coord.TriggersOwned) :
    k'.coord.bucketKeyAddressMap bucket = none ↔
      k.coord.bucketKeyAddressMap bucket = none ∧ KeepsUnknown bucket k e := by
  unfold KeepsUnknown
  rcases step_cases h with ⟨message, outs, hreceived, hmessage, -⟩ | ⟨hreceived, hcoord, -⟩
  · rw [handleMessage_addresses bucket hmessage hk, hreceived]
    simp
  · rw [hcoord, hreceived]
    simp

end Steps

/-! ## Stopped buckets -/

/-- An object of the bucket that is put fires no trigger on its node and none on the
coordinator, and the keys of the bucket are unknown. -/
structure Stopped (bucket : Bucket) (k : BucketCluster) : Prop where
  nodes : ∀ ip now bk, bk.bucket = bucket →
    (checkObjectArrival now bk (k.nodes ip)).1.sent = (k.nodes ip).sent ∧
      (checkObjectArrival now bk (k.nodes ip)).2 = ([], [])
  coord : k.coord.Silent bucket
  queries : k.coord.Refuses bucket

theorem checkObjectArrival_untriggered {bk : BucketKey} (hs : s.triggersOf bk.bucket = [])
    (now : Stamp) :
    (checkObjectArrival now bk s).1.sent = s.sent ∧ (checkObjectArrival now bk s).2 = ([], []) := by
  have hvisit := Shared.visit_snd s.bucketTriggersMap bk.bucket fun trigger : Trigger =>
    let result := trigger.actionForNewObject (now * 1000) bk
    (result.1, result)
  rw [show s.bucketTriggersMap.list bk.bucket = [] from hs] at hvisit
  unfold checkObjectArrival
  simp only [hvisit]
  exact ⟨List.append_nil _, rfl⟩

theorem Untriggered.stopped_iff {k : BucketCluster} (hk : k.Untriggered bucket) :
    k.Stopped bucket ↔ k.coord.bucketKeyAddressMap bucket = none := by
  rw [← refuses_iff]
  refine ⟨Stopped.queries, fun hrefuses => ⟨?_, silent_of_unowned hk.owned hk.unowned, hrefuses⟩⟩
  intro ip now bk hbk
  apply checkObjectArrival_untriggered
  rw [hbk]
  exact hk.nodes ip

section Runs

variable {env : Address → SchedEnv} {randR : RandR} {k k' : BucketCluster}
  {es : List BucketEvent} {bucket : Bucket}

theorem run_triggersOwned (hrun : run (step env randR) k es = some k')
    (hk : k.coord.TriggersOwned) : k'.coord.TriggersOwned :=
  @run_invariant _ _ (step env randR) (fun k => k.coord.TriggersOwned) (fun _ _ => True)
    (fun _ _ _ hk _ hstep => step_triggersOwned hstep hk) _ _ _ hk (along_true _ es) hrun

theorem run_elsewhere (hrun : run (step env randR) k es = some k')
    (hes : ∀ e ∈ es, ¬ HappensOn ip e) : k'.nodes ip = k.nodes ip :=
  @run_invariant _ _ (step env randR) (fun k₁ => k₁.nodes ip = k.nodes ip)
    (fun _ e => ¬ HappensOn ip e) (fun _ _ _ hk he hstep => (step_elsewhere hstep he).trans hk)
    _ _ _ rfl (along_of_forall hes k) hrun

theorem deletion_ownerless {request : BucketOperationRequest}
    (hdelete : request.operationType = .deleteBucket) (hk : k.coord.TriggersOwned)
    (h : step env randR k (.coord (.bucketOp request) id) = some k') :
    k'.Ownerless request.bucketName := by
  refine ⟨step_triggersOwned h hk, ?_⟩
  obtain rfl : k.handled (bucketOpHandler k.coord request) = k' := Option.some.inj h
  exact bucketOpHandler_deletes hdelete

theorem run_ownerless (hk : k.Ownerless bucket) (hrun : run (step env randR) k es = some k')
    (hcreate : ∀ e ∈ es, ¬ Creates bucket e) : k'.Ownerless bucket :=
  @run_invariant _ _ (step env randR) (Ownerless bucket) (fun _ e => ¬ Creates bucket e)
    (fun _ _ _ hk hcreate hstep => step_ownerless hk hcreate hstep) _ _ _ hk
    (along_of_forall hcreate k) hrun

theorem run_untriggered (hk : k.Untriggered bucket) (hrun : run (step env randR) k es = some k')
    (hcreate : ∀ e ∈ es, ¬ Creates bucket e) : k'.Untriggered bucket :=
  @run_invariant _ _ (step env randR) (Untriggered bucket) (fun _ e => ¬ Creates bucket e)
    (fun _ _ _ hk hcreate hstep => step_untriggered hk hcreate hstep) _ _ _ hk
    (along_of_forall hcreate k) hrun

theorem run_addresses_iff (hrun : run (step env randR) k es = some k')
    (hk : k.coord.TriggersOwned) (hnone : k.coord.bucketKeyAddressMap bucket = none) :
    k'.coord.bucketKeyAddressMap bucket = none ↔
      Along (step env randR) (KeepsUnknown bucket) k es := by
  rcases @along_or_bad _ _ (step env randR)
      (fun k => k.coord.TriggersOwned ∧ k.coord.bucketKeyAddressMap bucket = none)
      (fun k => k.coord.TriggersOwned ∧ k.coord.bucketKeyAddressMap bucket ≠ none)
      (fun _ _ => True) (KeepsUnknown bucket)
      (fun k e k' hk _ hkeeps hstep => ⟨step_triggersOwned hstep hk.1,
        (step_addresses hstep hk.1).mpr ⟨hk.2, hkeeps⟩⟩)
      (fun k e k' hk _ hkeeps hstep => ⟨step_triggersOwned hstep hk.1,
        fun hnone => hkeeps ((step_addresses hstep hk.1).mp hnone).2⟩)
      (fun k e k' hk _ hstep => ⟨step_triggersOwned hstep hk.1,
        fun hnone => hk.2 ((step_addresses hstep hk.1).mp hnone).1⟩)
      _ _ _ ⟨hk, hnone⟩ (along_true _ _) hrun with
    ⟨halong, hgood⟩ | ⟨halong, hbad⟩
  · exact iff_of_true hgood.2 halong
  · exact iff_of_false hbad.2 halong

end Runs

section Deletion

variable (env : Address → SchedEnv) (randR : RandR) (privateIp : Address)
  (threadId ioThreadNum : Nat) (hio : 0 < ioThreadNum) (seed : UInt32)
  (nodes : Address → SchedState)

/-- A deleted bucket that is not created again is stopped, once all messages were
delivered and no node has kept a trigger of it, in the states that are reached without
recording an object of the bucket, before the deletion or after it, and in no others. -/
theorem deleted_bucket_stopped_iff {bucket : Bucket} {request : BucketOperationRequest}
    (hdelete : request.operationType = .deleteBucket) (hbucket : request.bucketName = bucket)
    {before settle after : List BucketEvent} {k k' : BucketCluster}
    (hrun : run (step env randR)
      (start (CoordState.new privateIp threadId ioThreadNum hio seed) nodes)
      (before ++ .coord (.bucketOp request) id :: settle) = some k)
    (hdelivered : k.Delivered) (hnodes : ∀ ip, (k.nodes ip).triggersOf bucket = [])
    (hafter : run (step env randR) k after = some k')
    (hcreate : ∀ e ∈ settle ++ after, ¬ Creates bucket e) :
    k'.Stopped bucket ↔
      Along (step env randR) (KeepsUnknown bucket)
        (start (CoordState.new privateIp threadId ioThreadNum hio seed) nodes)
        (before ++ .coord (.bucketOp request) id :: settle ++ after) := by
  subst hbucket
  have howned := new_triggersOwned privateIp threadId ioThreadNum hio seed
  obtain ⟨k₁, hbefore, hrest⟩ := run_append_eq_some.mp hrun
  obtain ⟨k₂, hdeletion, hsettle⟩ := run_cons_eq_some.mp hrest
  have hk₁ : k₁.coord.TriggersOwned := run_triggersOwned hbefore howned
  have hk₂ : k₂.Ownerless request.bucketName := deletion_ownerless hdelete hk₁ hdeletion
  have hk : k.Ownerless request.bucketName :=
    run_ownerless hk₂ hsettle fun e he => hcreate e (List.mem_append_left _ he)
  have huntriggered : k.Untriggered request.bucketName := by
    refine ⟨hk, hnodes, fun sent hsent => ?_⟩
    rw [hdelivered.2] at hsent
    exact absurd hsent List.not_mem_nil
  have hk' : k'.Untriggered request.bucketName :=
    run_untriggered huntriggered hafter fun e he => hcreate e (List.mem_append_right _ he)
  rw [hk'.stopped_iff]
  exact run_addresses_iff (run_append_eq_some.mpr ⟨k, hrun, hafter⟩) howned rfl

end Deletion

/-! ## Two deletions -/

def exampleNode : Address := Bytes.lit "10.0.0.2"

def exampleStart : BucketCluster :=
  start (CoordState.new (Bytes.lit "10.0.0.1") 0 1 Nat.one_pos 0) fun _ => SchedState.new 0 1

def bucketRequest (type : BucketOperationType) : BucketOperationRequest :=
  { operationType := type, appName := Bytes.lit "app", bucketName := Bytes.lit "x" }

def triggerOp (type : TriggerOperationType) : BucketEvent :=
  .coord (.triggerOp 0 { operationType := type, appName := Bytes.lit "app"
                         bucketName := Bytes.lit "x", triggerName := Bytes.lit "t"
                         primitiveType := .byBatchSize, primitive := { count := 2 } }) id

def opening : List BucketEvent :=
  [.coord (.status { ip := exampleNode, availExecutors := 1 }) id,
    .coord (.bucketOp (bucketRequest .createBucket)) id, triggerOp .addTrigger,
    .update exampleNode 0]

/-- A function of the node puts an object into the bucket, by value or in shared
memory. -/
def putEvent (packing : UInt8) (body : String) : BucketEvent :=
  .node exampleNode (.executor 0 ([1, 2, 1, packing] ++
    Bytes.lit "0123456789abcdef|f||x|k0123456789abcdef|" ++ Bytes.lit body)) id

def nextObject : BucketKey where
  bucket := Bytes.lit "x"
  key := Bytes.lit "l"
  session := Bytes.lit "0123456789abcdef"

/-- The trigger is deleted before its bucket, and the objects come without their
values. -/
theorem deleted_bucket_stopped_iff_trigger_first :
    ∃ k k', run (step TriggerCluster.nodeEnv fun seed => (0, seed)) exampleStart
        ((opening ++ [triggerOp .deleteTrigger, .update exampleNode 0]) ++
          [.coord (.bucketOp (bucketRequest .deleteBucket)) id]) = some k ∧ k.Delivered ∧
      run (step TriggerCluster.nodeEnv fun seed => (0, seed)) k
        [putEvent 2 "5", .notify exampleNode 0] = some k' ∧ k'.Stopped (Bytes.lit "x") := by
  have hrun : (run (step TriggerCluster.nodeEnv fun seed => (0, seed)) exampleStart
      ((opening ++ [triggerOp .deleteTrigger, .update exampleNode 0]) ++
        [.coord (.bucketOp (bucketRequest .deleteBucket)) id])).map (fun k =>
          (decide (k.Delivered ∧ (k.nodes exampleNode).triggersOf (Bytes.lit "x") = []),
            (run (step TriggerCluster.nodeEnv fun seed => (0, seed)) k
              [putEvent 2 "5", .notify exampleNode 0]).map fun k' =>
                decide (k'.coord.bucketKeyAddressMap (Bytes.lit "x") = none))) =
        some (true, some true) := by
    decide +kernel
  obtain ⟨k, hk, houtcome⟩ := Option.map_eq_some_iff.mp hrun
  obtain ⟨hsettled, hafter⟩ := Prod.mk.inj houtcome
  obtain ⟨hdelivered, hnode⟩ := of_decide_eq_true hsettled
  obtain ⟨k', hk', hunknown⟩ := Option.map_eq_some_iff.mp hafter
  refine ⟨k, k', hk, hdelivered, hk', ?_⟩
  have hnodes : ∀ ip, (k.nodes ip).triggersOf (Bytes.lit "x") = [] := by
    intro ip
    by_cases hip : ip = exampleNode
    · rw [hip]
      exact hnode
    · rw [run_elsewhere hk]
      · rfl
      · simp [opening, triggerOp, HappensOn, Ne.symm hip]
  refine (deleted_bucket_stopped_iff TriggerCluster.nodeEnv (fun seed => (0, seed)) _ 0 1
    Nat.one_pos 0 (fun _ => SchedState.new 0 1) rfl rfl hk hdelivered hnodes hk' ?_).mpr ?_
  · simp [putEvent, Creates]
  · exact (run_addresses_iff (run_append_eq_some.mpr ⟨k, hk, hk'⟩)
      (new_triggersOwned _ 0 1 Nat.one_pos 0) rfl).mp (of_decide_eq_true hunknown)

/-- Both copies of the trigger get one object before the deletion.  The next object
completes the batch on the node, and the coordinator still finds the first one. -/
theorem deleted_bucket_fires :
    ∃ k, run (step TriggerCluster.nodeEnv fun seed => (0, seed)) exampleStart
        (opening ++ [putEvent 1 "v", .notify exampleNode 0,
          .coord (.bucketOp (bucketRequest .deleteBucket)) id]) = some k ∧
      k.Delivered ∧
      (checkObjectArrival 0 nextObject (k.nodes exampleNode)).2.1 = [Bytes.lit "t"] ∧
      ¬ k.coord.Refuses (Bytes.lit "x") := by
  have hrun : (run (step TriggerCluster.nodeEnv fun seed => (0, seed)) exampleStart
      (opening ++ [putEvent 1 "v", .notify exampleNode 0,
        .coord (.bucketOp (bucketRequest .deleteBucket)) id])).map (fun k =>
        decide (k.Delivered ∧
          (checkObjectArrival 0 nextObject (k.nodes exampleNode)).2.1 = [Bytes.lit "t"] ∧
          (k.coord.bucketKeyAddressMap (Bytes.lit "x")).isSome)) = some true := by
    decide +kernel
  obtain ⟨k, hk, houtcome⟩ := Option.map_eq_some_iff.mp hrun
  obtain ⟨hdelivered, hfires, hknown⟩ := of_decide_eq_true houtcome
  refine ⟨k, hk, hdelivered, hfires, fun hrefuses => ?_⟩
  rw [refuses_iff.mp hrefuses] at hknown
  cases hknown

end BucketCluster

end Pheromone.Cluster
