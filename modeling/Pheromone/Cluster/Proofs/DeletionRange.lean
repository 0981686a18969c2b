import Pheromone.Cluster.Proofs.TriggerAgreement

/-!
# Deleted triggers on the schedulers

The search of a scheduler for a trigger to delete has no end of its own: it stops at the
trigger, or it reads past the list.  Whether the trigger is there is a matter of counting
what the scheduler was told to install and to delete.
-/

namespace Pheromone.Cluster

open Lib Common Coordinator Scheduler

variable {c : CoordState} {e : RegistryEvent} {es : List RegistryEvent} {msg : UpdateCoordMsg}
  {α : Type}

variable {k k' : RegistryCluster} {view' : TriggerView}

/-! ## Counting -/

/-- How many triggers called `name` the updates tell a scheduler to put into `bucket`. -/
def announced (bucket : Bucket) (name : Name) (msgs : List UpdateCoordMsg) : Nat :=
  (msgs.flatMap fun msg => if msg.msgType = 0 then signaturesFor bucket msg.triggers else []).countP
    fun t => t.triggerName = name

/-- How often the updates tell a scheduler to delete a trigger called `name` from `bucket`. -/
def deletions (bucket : Bucket) (name : Name) (msgs : List UpdateCoordMsg) : Nat :=
  (msgs.flatMap fun msg => if msg.msgType = 2 then msg.triggers else []).countP
    fun entity => entity.bucketName = bucket ∧ entity.triggerName = name

theorem announced_append (bucket : Bucket) (name : Name) (msgs msgs' : List UpdateCoordMsg) :
    announced bucket name (msgs ++ msgs') =
      announced bucket name msgs + announced bucket name msgs' := by
  unfold announced
  rw [List.flatMap_append, List.countP_append]

theorem deletions_append (bucket : Bucket) (name : Name) (msgs msgs' : List UpdateCoordMsg) :
    deletions bucket name (msgs ++ msgs') =
      deletions bucket name msgs + deletions bucket name msgs' := by
  unfold deletions
  rw [List.flatMap_append, List.countP_append]

def installed (view : TriggerView) (bucket : Bucket) (name : Name) : Nat :=
  (view bucket).countP fun t => t.triggerName = name

theorem countP_eraseP_add_one {p : α → Bool} {l : List α} (h : l.any p = true) :
    (l.eraseP p).countP p + 1 = l.countP p := by
  obtain ⟨a, ha, hpa⟩ := List.any_eq_true.mp h
  obtain ⟨b, l₁, l₂, -, hb, rfl, herase⟩ := List.exists_of_eraseP ha hpa
  rw [herase, List.countP_append, List.countP_append, List.countP_cons_of_pos hb]
  omega

theorem countP_eraseP_of_disjoint {p q : α → Bool} {l : List α}
    (h : ∀ a ∈ l, p a = true → q a = false) : (l.eraseP p).countP q = l.countP q := by
  by_cases hany : l.any p = true
  · obtain ⟨a, ha, hpa⟩ := List.any_eq_true.mp hany
    obtain ⟨b, l₁, l₂, -, hb, rfl, herase⟩ := List.exists_of_eraseP ha hpa
    have hq : q b = false := h b (by simp) hb
    rw [herase, List.countP_append, List.countP_append,
      List.countP_cons_of_neg (by rw [hq]; exact Bool.false_ne_true)]
  · rw [List.eraseP_of_forall_not]
    intro a ha hpa
    exact hany (List.any_eq_true.mpr ⟨a, ha, hpa⟩)

theorem installed_erase {view : TriggerView} {bucket : Bucket} {name : Name}
    (h : view.erase bucket name = some view') (b : Bucket) (n : Name) :
    installed view' b n + (if bucket = b ∧ name = n then 1 else 0) = installed view b n := by
  unfold TriggerView.erase at h
  split at h
  next hany =>
    cases h
    unfold installed
    by_cases hb : bucket = b
    · subst hb
      rw [Function.update_self]
      by_cases hn : name = n
      · subst hn
        rw [if_pos ⟨rfl, rfl⟩]
        exact countP_eraseP_add_one hany
      · rw [if_neg fun hboth => hn hboth.2, Nat.add_zero]
        apply countP_eraseP_of_disjoint
        intro t _ ht
        simp only [decide_eq_true_eq] at ht
        simp [ht, hn]
    · rw [Function.update_of_ne (Ne.symm hb), if_neg fun hboth => hb hboth.1, Nat.add_zero]
  · cases h

theorem erase_isSome_iff (view : TriggerView) (bucket : Bucket) (name : Name) :
    (view.erase bucket name).isSome ↔ 0 < installed view bucket name := by
  unfold TriggerView.erase installed
  rw [List.countP_pos_iff, ← List.any_eq_true]
  split
  next hany => simp [hany]
  next hany => simp [hany]

theorem installed_eraseAll {entities : List TriggerEntity} {view : TriggerView}
    (h : entities.foldlM (fun view entity => view.erase entity.bucketName entity.triggerName)
      view = some view') (b : Bucket) (n : Name) :
    installed view' b n +
        entities.countP (fun entity => entity.bucketName = b ∧ entity.triggerName = n) =
      installed view b n := by
  induction entities generalizing view with
  | nil =>
    cases h
    rfl
  | cons entity entities ih =>
    obtain ⟨view₁, hfirst, hrest⟩ := foldlM_cons_eq_some.mp h
    have hcount := installed_erase hfirst b n
    have hlater := ih hrest
    rw [List.countP_cons]
    simp only [decide_eq_true_eq]
    omega

theorem installed_update {view : TriggerView} (h : view.update msg = some view') (b : Bucket)
    (n : Name) :
    installed view' b n + deletions b n [msg] = installed view b n + announced b n [msg] := by
  unfold TriggerView.update at h
  split at h
  next htype =>
    split at h
    · cases h
      simp [installed, announced, deletions, htype, List.countP_append]
    · cases h
  next htype =>
    have hcount := installed_eraseAll h b n
    have hannounced : announced b n [msg] = 0 := by simp [announced, htype]
    have hdeletions : deletions b n [msg] =
        msg.triggers.countP fun entity => entity.bucketName = b ∧ entity.triggerName = n := by
      simp [deletions, htype]
    omega
  next hadd hdelete =>
    have hannounced : announced b n [msg] = 0 := by
      simp [announced, show msg.msgType ≠ 0 from hadd]
    have hdeletions : deletions b n [msg] = 0 := by
      simp [deletions, show msg.msgType ≠ 2 from hdelete]
    cases h
    omega

/-! ## Runs -/

namespace RegistryCluster

def deliveredBy (ip : Address) (k : RegistryCluster) : RegistryEvent → List UpdateCoordMsg
  | .deliver ip' _ => if ip' = ip then (k.channels ip).head?.toList else []
  | _ => []

def deliveredTo (ip : Address) : RegistryCluster → List RegistryEvent → List UpdateCoordMsg
  | _, [] => []
  | k, e :: es =>
      deliveredBy ip k e ++
        match k.step e with
        | none => []
        | some k' => deliveredTo ip k' es

def DeletionsSent (k : RegistryCluster) : Prop :=
  ∀ ip, ∀ msg ∈ k.channels ip, msg.msgType = 2 → ∃ entity, msg.triggers = [entity]

theorem step_installed (h : k.step e = some k') (ip : Address) (b : Bucket) (n : Name) :
    installed (k'.nodes ip).signatures b n + deletions b n (deliveredBy ip k e) =
      installed (k.nodes ip).signatures b n + announced b n (deliveredBy ip k e) := by
  cases e with
  | register now registration =>
    obtain ⟨result, -, rfl⟩ := Option.map_eq_some_iff.mp h
    rfl
  | triggerOp now request =>
    obtain ⟨result, -, rfl⟩ := Option.map_eq_some_iff.mp h
    rfl
  | bucketOp request =>
    cases h
    rfl
  | status msg =>
    cases h
    rfl
  | deliver ip' now =>
    rcases deliver_cases h with ⟨hchannel, rfl⟩ | ⟨msg, rest, s, hchannel, hs, rfl⟩
    · by_cases hip : ip' = ip
      · subst hip
        simp [deliveredBy, hchannel, announced, deletions]
      · simp [deliveredBy, hip, announced, deletions]
    · by_cases hip : ip' = ip
      · subst hip
        have hview := handleUpdate_signatures now msg (k.nodes ip')
        rw [hs, Option.map_some] at hview
        simp only [deliveredBy, if_true, hchannel, List.head?_cons, Option.toList_some,
          Function.update_self]
        exact installed_update hview.symm b n
      · simp only [deliveredBy, if_neg hip, Function.update_of_ne (Ne.symm hip)]
        rfl

theorem run_installed (h : run step k es = some k') (ip : Address) (b : Bucket) (n : Name) :
    installed (k'.nodes ip).signatures b n + deletions b n (deliveredTo ip k es) =
      installed (k.nodes ip).signatures b n + announced b n (deliveredTo ip k es) := by
  induction es generalizing k with
  | nil =>
    cases h
    rfl
  | cons e es ih =>
    obtain ⟨k₁, hstep, hrest⟩ := Option.bind_eq_some_iff.mp h
    have hfirst := step_installed hstep ip b n
    have hlater := ih hrest
    simp only [deliveredTo, hstep]
    rw [announced_append, deletions_append]
    omega

theorem triggerOpResult_deletion {now : TimePoint} {request : TriggerOperationRequest}
    {result : CoordState × UpdateCoordMsg} (h : triggerOpResult now c request = some result)
    (htype : result.2.msgType = 2) : ∃ entity, result.2.triggers = [entity] := by
  have hnothing : (triggerMessage c request).msgType ≠ 2 := by simp [triggerMessage]
  unfold triggerOpResult at h
  split at h
  · obtain ⟨pointer, -, -, -, -, ⟨-, hmsg⟩ | ⟨-, hmsg⟩⟩ := addTrigger_cases h
    · rw [hmsg] at htype
      exact absurd htype hnothing
    · rw [hmsg] at htype
      exact absurd htype hnothing
  · cases h
    unfold deleteTrigger at htype ⊢
    simp only at htype ⊢
    split at htype
    next hshorter =>
      rw [if_pos hshorter]
      exact ⟨_, rfl⟩
    · exact absurd htype hnothing
  · cases h
    exact absurd htype hnothing

theorem handled_deletionsSent {result : CoordState × List CoordOut} (hk : k.DeletionsSent)
    (hsent : ∀ ip, ∀ msg ∈ updatesFor ip result.2, msg.msgType = 2 →
      ∃ entity, msg.triggers = [entity]) : (k.handled result).DeletionsSent := by
  intro ip msg hmsg
  rcases List.mem_append.mp hmsg with hold | hnew
  · exact hk ip msg hold
  · exact hsent ip msg hnew

theorem mem_updatesFor_broadcast {ip : Address} {msg' : UpdateCoordMsg}
    (h : msg' ∈ updatesFor ip (broadcast c msg)) : msg' = msg := by
  rw [updatesFor_broadcast] at h
  split at h
  · exact List.mem_singleton.mp h
  · cases h

theorem step_deletionsSent (hk : k.DeletionsSent) (h : k.step e = some k') : k'.DeletionsSent := by
  cases e with
  | register now registration =>
    obtain ⟨result, hresult, rfl⟩ := Option.map_eq_some_iff.mp h
    obtain ⟨msg, houts, hannounced⟩ := appRegisterHandler_announced hresult
    refine handled_deletionsSent hk fun ip msg' hmsg' htype => ?_
    rw [houts] at hmsg'
    rw [mem_updatesFor_broadcast hmsg', hannounced.msgType] at htype
    cases htype
  | triggerOp now request =>
    obtain ⟨operated, response, hoperated, rfl⟩ := triggerOp_cases h
    refine handled_deletionsSent hk fun ip msg' hmsg' htype => ?_
    have hmsg : msg' = operated.2 := mem_updatesFor_broadcast hmsg'
    rw [hmsg] at htype ⊢
    exact triggerOpResult_deletion hoperated htype
  | bucketOp request =>
    cases h
    refine handled_deletionsSent hk fun ip msg' hmsg' => ?_
    rw [(bucketOpHandler_updates k.coord request).2 ip] at hmsg'
    cases hmsg'
  | status msg =>
    cases h
    exact hk
  | deliver ip' now =>
    intro ip msg hmsg
    exact hk ip msg (mem_channels_of_deliver h hmsg)

def Untold (k : RegistryCluster) : Prop :=
  ∀ ip, k.channels ip = [] ∧ ∀ bucket, (k.nodes ip).triggersOf bucket = []

theorem run_deletionsSent (hk : k.Untold) (hrun : run step k es = some k') : k'.DeletionsSent := by
  have hstart : k.DeletionsSent := by
    intro ip msg hmsg
    rw [(hk ip).1] at hmsg
    cases hmsg
  exact @run_invariant _ _ step DeletionsSent (fun _ _ => True)
    (fun _ _ _ hk _ hstep => step_deletionsSent hk hstep) _ _ _ hstart (along_true _ es) hrun

/-- A scheduler that receives a deletion finds the trigger exactly if it was told to
install more triggers of that name in the bucket than to delete. -/
theorem deletion_in_range_iff {k₀ k : RegistryCluster} {es : List RegistryEvent}
    (hstart : k₀.Untold) (hrun : run step k₀ es = some k) {ip : Address} {msg : UpdateCoordMsg}
    {rest : List UpdateCoordMsg} (hchannel : k.channels ip = msg :: rest)
    (htype : msg.msgType = 2) (now : Stamp) :
    (k.step (.deliver ip now)).isSome ↔
      ∀ entity ∈ msg.triggers,
        deletions entity.bucketName entity.triggerName (deliveredTo ip k₀ es) <
          announced entity.bucketName entity.triggerName (deliveredTo ip k₀ es) := by
  obtain ⟨entity, hentity⟩ := run_deletionsSent hstart hrun ip msg
    (by rw [hchannel]; exact List.mem_cons_self) htype
  have hstep : (k.step (.deliver ip now)).isSome ↔
      (TriggerView.erase (k.nodes ip).signatures entity.bucketName entity.triggerName).isSome := by
    have hview := handleUpdate_signatures now msg (k.nodes ip)
    have herase : TriggerView.update (k.nodes ip).signatures msg =
        TriggerView.erase (k.nodes ip).signatures entity.bucketName entity.triggerName := by
      unfold TriggerView.update
      simp only [htype, hentity, List.foldlM_cons, List.foldlM_nil, bind_pure]
    simp only [step, hchannel, Option.isSome_map]
    rw [← herase, ← hview, Option.isSome_map]
  have hcount := run_installed hrun ip entity.bucketName entity.triggerName
  have hnone : installed (k₀.nodes ip).signatures entity.bucketName entity.triggerName = 0 := by
    unfold installed SchedState.signatures
    rw [(hstart ip).2]
    rfl
  rw [hstep, erase_isSome_iff, hentity]
  simp only [List.mem_singleton, forall_eq]
  omega

theorem oneNode_untold : oneNode.Untold := fun _ => ⟨rfl, fun _ => rfl⟩

def deleteJoin : List RegistryEvent :=
  [.register 0 joinApp, .triggerOp 0 (deleteRequest (Bytes.lit "t_1_t")), deliverNext]

theorem deletion_in_range_join :
    oneNode.Untold ∧ ∃ k msg, run step oneNode deleteJoin = some k ∧
      k.channels (Bytes.lit "10.0.0.2") = [msg] ∧ msg.msgType = 2 ∧
        (k.step deliverNext).isSome := by
  obtain ⟨k, hrun⟩ := Option.isSome_iff_exists.mp
    (show (run step oneNode deleteJoin).isSome by decide +kernel)
  obtain ⟨msg, hchannel, htype⟩ : ∃ msg, k.channels (Bytes.lit "10.0.0.2") = [msg] ∧
      msg.msgType = 2 := by
    cases hrun
    exact ⟨_, rfl, rfl⟩
  refine ⟨oneNode_untold, k, msg, hrun, hchannel, htype,
    (deletion_in_range_iff oneNode_untold hrun hchannel htype 0).mpr ?_⟩
  cases hrun
  cases hchannel
  decide +kernel

def deletePeriodic : List RegistryEvent :=
  [.register 0 joinApp, .triggerOp 0 (addRequest (Bytes.lit "x") .byTime),
    .triggerOp 0 (deleteRequest (Bytes.lit "x")), deliverNext, deliverNext]

/-- The scheduler was never told of the periodic trigger, and searches past the end of its
list for it. -/
theorem deletion_of_periodic_undefined :
    ((run step oneNode deletePeriodic).map fun k =>
      (k.channels (Bytes.lit "10.0.0.2")).map UpdateCoordMsg.msgType) = some [2] ∧
      run step oneNode (deletePeriodic ++ [deliverNext]) = none := by
  refine ⟨by decide +kernel, ?_⟩
  rw [← Option.isNone_iff_eq_none]
  decide +kernel

end RegistryCluster

end Pheromone.Cluster
