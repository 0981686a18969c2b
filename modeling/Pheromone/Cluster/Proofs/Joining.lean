import Pheromone.Cluster.Proofs.TriggerAgreement

/-!
# Nodes that join late

A registration or a new trigger is announced once, to the nodes that have reported
their status by then.  The status handler sends nothing, so a node that reports
later is never told.
-/

namespace Pheromone.Cluster

open Lib Common Coordinator Scheduler

variable {k k' : RegistryCluster} {msg : UpdateCoordMsg} {e : RegistryEvent} {s : SchedState}
  {c : CoordState} {ip : Address} {now : TimePoint}
variable {es : List RegistryEvent}

/-! ## What a node keeps of a message -/

/-- The node knows everything that a message of type 0 says. -/
structure Absorbed (msg : UpdateCoordMsg) (s : SchedState) : Prop where
  functions : ∀ f ∈ msg.functions, f ∈ (s.appInfo msg.appName).functions
  directDeps : ∀ d ∈ msg.dependencies, ∀ src tgt, Declares d src → tgt ∈ d.tgtFunctions →
    DependsOn (s.appInfo msg.appName).directDeps src tgt
  appCoord : s.appCoordMap msg.appName = some (coordOf msg)
  bucketCoord : ∀ b ∈ msg.triggers.map TriggerEntity.bucketName,
    s.bucketCoordMap b = some (coordOf msg)
  signatures : ∀ b, ∀ signature ∈ signaturesFor b msg.triggers, signature ∈ s.signatures b

theorem absorbed_of_added {s' : SchedState} (h : Added msg s s') : Absorbed msg s' := by
  refine ⟨fun f hf => ?_, fun d hd src tgt hsrc htgt => ?_, ?_, fun b hb => ?_,
    fun b signature hsignature => ?_⟩
  · rw [h.functions, if_pos rfl, Finset.mem_union, List.mem_toFinset]
    exact Or.inr hf
  · rw [h.directDeps, if_pos rfl, recordDirect_foldl_dependsOn]
    exact Or.inr ⟨d, hd, hsrc, htgt⟩
  · rw [h.appCoord, Map.set_self]
  · rw [h.bucketCoord, if_pos hb]
  · rw [h.signatures, List.mem_append]
    exact Or.inr hsignature

theorem Absorbed.added {msg' : UpdateCoordMsg} {s' : SchedState} (hs : Absorbed msg s)
    (hcoord : coordOf msg' = coordOf msg) (h : Added msg' s s') : Absorbed msg s' := by
  refine ⟨fun f hf => ?_, fun d hd src tgt hsrc htgt => ?_, ?_, fun b hb => ?_,
    fun b signature hsignature => ?_⟩
  · rw [h.functions, Finset.mem_union]
    exact Or.inl (hs.functions f hf)
  · have hbefore := hs.directDeps d hd src tgt hsrc htgt
    rw [h.directDeps]
    split
    · rw [recordDirect_foldl_dependsOn]
      exact Or.inl hbefore
    · exact hbefore
  · rw [h.appCoord, Map.set_apply]
    split
    · rw [hcoord]
    · exact hs.appCoord
  · rw [h.bucketCoord]
    split
    · rw [hcoord]
    · exact hs.bucketCoord b hb
  · rw [h.signatures, List.mem_append]
    exact Or.inl (hs.signatures b signature hsignature)

/-! ## What is known of an application -/

structure KnowsApp (coord : HandlerThread) (now : TimePoint) (registration : AppRegistration)
    (s : SchedState) : Prop where
  functions : ∀ f ∈ registration.functions, f ∈ (s.appInfo registration.appName).functions
  directDeps : ∀ d ∈ registration.dependencies, ∀ src tgt, Declares d src →
    tgt ∈ d.tgtFunctions → DependsOn (s.appInfo registration.appName).directDeps src tgt
  appCoord : s.appCoordMap registration.appName = some coord
  bucketCoord : ∀ d ∈ registration.dependencies, d.type ≠ .direct →
    ∀ tgt, d.tgtFunctions.head? = some tgt → s.bucketCoordMap (bucketOfTarget tgt) = some coord
  triggers : ∀ d ∈ registration.dependencies, d.type ≠ .direct →
    ∀ tgt, d.tgtFunctions.head? = some tgt →
      ∀ t, triggerOfDependency now d tgt = some (some t) → t.type ≠ .byTime →
        t.signature ∈ s.signatures (bucketOfTarget tgt)

theorem Announced.knowsApp {c' : CoordState} {registration : AppRegistration}
    (h : Announced now c registration c' msg) (hs : Absorbed msg s) :
    KnowsApp { ip := c.privateIp, tid := c.threadId } now registration s := by
  have hentity : ∀ d ∈ registration.dependencies, d.type ≠ .direct →
      ∀ tgt, d.tgtFunctions.head? = some tgt → ∃ trigger,
        triggerOfDependency now d tgt = some trigger ∧
          entityOf (bucketOfTarget tgt) trigger ∈ msg.triggers := by
    intro d hd hne tgt htgt
    obtain ⟨entity, hmem, _, tgt', trigger, htgt', htrigger, rfl⟩ := h.triggers d hd hne
    have heq : tgt' = tgt := Option.some.inj (htgt'.symm.trans htgt)
    subst heq
    exact ⟨trigger, htrigger, hmem⟩
  refine ⟨fun f hf => ?_, fun d hd src tgt hsrc htgt => ?_, ?_, fun d hd hne tgt htgt => ?_,
    fun d hd hne tgt htgt t ht htime => ?_⟩
  · rw [← h.appName]
    exact hs.functions f (by rw [h.functions]; exact hf)
  · rw [← h.appName]
    refine hs.directDeps d ?_ src tgt hsrc htgt
    rw [h.dependencies]
    exact List.mem_filter.mpr ⟨hd, by simpa using hsrc.1⟩
  · rw [← h.appName, hs.appCoord, h.coord]
  · obtain ⟨trigger, _, hmem⟩ := hentity d hd hne tgt htgt
    rw [← h.coord]
    refine hs.bucketCoord _ (List.mem_map.mpr ⟨_, hmem, entityOf_bucketName _ _⟩)
  · obtain ⟨trigger, htrigger, hmem⟩ := hentity d hd hne tgt htgt
    have heq : trigger = some t := Option.some.inj (htrigger.symm.trans ht)
    subst heq
    apply hs.signatures
    unfold signaturesFor
    rw [List.mem_filterMap]
    refine ⟨_, List.mem_filter.mpr ⟨hmem, by simp [entityOf_bucketName]⟩, ?_⟩
    obtain ⟨number, state, rfl⟩ := triggerOfDependency_eq ht
    unfold entityOf
    simp only
    rw [if_neg htime]
    exact entitySignature_dependencyEntity _ _ _ _

structure KnowsTrigger (coord : HandlerThread) (now : TimePoint)
    (request : TriggerOperationRequest) (s : SchedState) : Prop where
  bucketCoord : s.bucketCoordMap request.bucketName = some coord
  trigger : ∃ pointer, genTriggerPointer now request.primitiveType request.triggerName
      request.primitive = some pointer ∧
    (pointer.setTriggerOption (intOfUInt32 request.triggerOption)).signature ∈
      s.signatures request.bucketName

theorem addTrigger_knowsTrigger {c' : CoordState} {request : TriggerOperationRequest}
    (h : addTrigger now c request = some (c', msg)) (hs : Absorbed msg s)
    (htime : request.primitiveType ≠ .byTime) (hname : request.triggerName ≠ []) :
    KnowsTrigger { ip := c.privateIp, tid := c.threadId } now request s := by
  obtain ⟨pointer, hpointer, _, htype, hentity, hmsg⟩ := addTrigger_cases h
  rcases hmsg with ⟨htime', _⟩ | ⟨_, rfl⟩
  · exact absurd (htype.symm.trans htime') htime
  · refine ⟨hs.bucketCoord request.bucketName List.mem_cons_self, pointer, hpointer, ?_⟩
    apply hs.signatures
    unfold signaturesFor
    rw [List.mem_filterMap]
    refine ⟨_, List.mem_filter.mpr ⟨List.mem_cons_self, decide_eq_true rfl⟩, ?_⟩
    rw [hentity, if_neg hname]

/-! ## Additions -/

def RegistryEvent.IsAddition : RegistryEvent → Prop
  | .triggerOp _ request => request.operationType = .addTrigger
  | _ => True

theorem triggerOpResult_addition {request : TriggerOperationRequest}
    {result : CoordState × UpdateCoordMsg} (hadd : request.operationType = .addTrigger)
    (h : triggerOpResult now c request = some result) :
    result.2.msgType = 0 ∧ coordOf result.2 = { ip := c.privateIp, tid := c.threadId } := by
  unfold triggerOpResult at h
  cases happ : c.bucketAppMap request.bucketName with
  | none =>
    simp only [hadd, happ, Option.some.injEq] at h
    subst h
    exact ⟨rfl, rfl⟩
  | some app =>
    simp only [hadd, happ] at h
    obtain ⟨pointer, _, _, _, _, hmsg⟩ := addTrigger_cases h
    rcases hmsg with ⟨_, heq⟩ | ⟨_, heq⟩
    · rw [heq]
      exact ⟨rfl, rfl⟩
    · rw [heq]
      exact ⟨rfl, rfl⟩

namespace RegistryCluster

def thread (k : RegistryCluster) : HandlerThread :=
  { ip := k.coord.privateIp, tid := k.coord.threadId }

/-- Only announcements of this coordinator are under way. -/
def Announces (k : RegistryCluster) : Prop :=
  ∀ ip, ∀ msg ∈ k.channels ip, msg.msgType = 0 ∧ coordOf msg = k.thread

theorem addition_sends (he : e.IsAddition) (hdeliver : ∀ ip now, e ≠ .deliver ip now)
    (h : k.step e = some k') :
    k'.thread = k.thread ∧ k'.nodes = k.nodes ∧ ∀ ip, ∃ messages,
      k'.channels ip = k.channels ip ++ messages ∧
        ∀ msg ∈ messages, msg.msgType = 0 ∧ coordOf msg = k.thread := by
  have hbroadcast : ∀ (ip : Address) (c : CoordState) (msg : UpdateCoordMsg),
      msg.msgType = 0 ∧ coordOf msg = k.thread →
        ∀ msg' ∈ updatesFor ip (broadcast c msg), msg'.msgType = 0 ∧ coordOf msg' = k.thread := by
    intro ip c msg hmsg msg' hmsg'
    rw [updatesFor_broadcast] at hmsg'
    split at hmsg'
    · rw [List.mem_singleton.mp hmsg']
      exact hmsg
    · cases hmsg'
  have hthread : ∀ {c : CoordState}, SameThread k.coord c →
      ({ ip := c.privateIp, tid := c.threadId } : HandlerThread) = k.thread := by
    intro c hc
    rw [hc.1, hc.2.1]
    rfl
  cases e with
  | register now registration =>
    obtain ⟨⟨c', outs⟩, hresult, rfl⟩ := Option.map_eq_some_iff.mp h
    obtain ⟨msg, rfl, hannounced⟩ := appRegisterHandler_announced hresult
    exact ⟨hthread hannounced.thread, rfl, fun ip => ⟨_, rfl,
      hbroadcast ip c' msg ⟨hannounced.msgType, hannounced.coord⟩⟩⟩
  | triggerOp now request =>
    obtain ⟨result, response, hresult, rfl⟩ := triggerOp_cases h
    exact ⟨hthread (triggerOpResult_sameThread hresult), rfl, fun ip => ⟨_, rfl,
      hbroadcast ip result.1 result.2 (triggerOpResult_addition he hresult)⟩⟩
  | bucketOp request =>
    cases h
    obtain ⟨hsame, hnone⟩ := bucketOpHandler_updates k.coord request
    refine ⟨hthread hsame, rfl, fun ip => ⟨[], ?_, by simp⟩⟩
    exact congrArg (k.channels ip ++ ·) (hnone ip)
  | status msg =>
    cases h
    exact ⟨rfl, rfl, fun ip => ⟨[], by simp, by simp⟩⟩
  | deliver ip now => exact absurd rfl (hdeliver ip now)

def Told (k : RegistryCluster) (ip : Address) (msg : UpdateCoordMsg) : Prop :=
  msg ∈ k.channels ip ∨ Absorbed msg (k.nodes ip)

theorem step_announces (he : e.IsAddition) (h : k.step e = some k') (hk : k.Announces) :
    k'.Announces ∧ k'.thread = k.thread := by
  by_cases hdeliver : ∃ ip now, e = .deliver ip now
  · obtain ⟨ip, now, rfl⟩ := hdeliver
    have hthread : k'.thread = k.thread := by
      rcases deliver_cases h with ⟨_, rfl⟩ | ⟨msg, rest, s, _, _, rfl⟩
      · rfl
      · rfl
    refine ⟨fun ip' msg' hmsg' => ?_, hthread⟩
    rw [hthread]
    exact hk ip' msg' (mem_channels_of_deliver h hmsg')
  · push Not at hdeliver
    obtain ⟨hthread, _, hsends⟩ := addition_sends he hdeliver h
    refine ⟨fun ip msg hmsg => ?_, hthread⟩
    obtain ⟨messages, hchannel, hmessages⟩ := hsends ip
    rw [hchannel, List.mem_append] at hmsg
    rw [hthread]
    rcases hmsg with hmsg | hmsg
    · exact hk ip msg hmsg
    · exact hmessages msg hmsg

theorem step_told (he : e.IsAddition) (h : k.step e = some k') (hk : k.Announces)
    (hcoord : coordOf msg = k.thread) (htold : k.Told ip msg) : k'.Told ip msg := by
  by_cases hdeliver : ∃ ip now, e = .deliver ip now
  · obtain ⟨ip', now, rfl⟩ := hdeliver
    rcases deliver_cases h with ⟨_, rfl⟩ | ⟨msg', rest, s, hchannel, hs, rfl⟩
    · exact htold
    · by_cases hip : ip = ip'
      · subst hip
        obtain ⟨htype, hcoord'⟩ := hk ip msg' (by rw [hchannel]; exact List.mem_cons_self)
        unfold handleUpdate at hs
        rw [htype] at hs
        have hadded := addUpdate_added hs
        unfold Told
        simp only [Function.update_self]
        rcases htold with hmem | habsorbed
        · rw [hchannel] at hmem
          rcases List.mem_cons.mp hmem with rfl | hmem
          · exact Or.inr (absorbed_of_added hadded)
          · exact Or.inl hmem
        · exact Or.inr (habsorbed.added (hcoord'.trans hcoord.symm) hadded)
      · unfold Told
        simp only [Function.update_of_ne hip]
        exact htold
  · push Not at hdeliver
    obtain ⟨_, hnodes, hsends⟩ := addition_sends he hdeliver h
    obtain ⟨messages, hchannel, _⟩ := hsends ip
    unfold Told
    rw [hchannel, hnodes, List.mem_append]
    exact htold.imp Or.inl id

theorem run_announces (hes : ∀ e ∈ es, e.IsAddition) (h : run step k es = some k')
    (hk : k.Announces) : k'.Announces :=
  @run_invariant _ _ step Announces (fun _ e => e.IsAddition)
    (fun _ _ _ hs he hstep => (step_announces he hstep hs).1) k k' es hk
    (along_of_forall hes k) h

theorem run_told (hes : ∀ e ∈ es, e.IsAddition) (h : run step k es = some k') (hk : k.Announces)
    (hcoord : coordOf msg = k.thread) (htold : k.Told ip msg) : k'.Told ip msg := by
  have hend := @run_invariant _ _ step
    (fun k => k.Announces ∧ coordOf msg = k.thread ∧ k.Told ip msg) (fun _ e => e.IsAddition)
    (fun k e k' hs he hstep => by
      obtain ⟨hannounces, hthread⟩ := step_announces he hstep hs.1
      exact ⟨hannounces, hs.2.1.trans hthread.symm, step_told he hstep hs.1 hs.2.1 hs.2.2⟩)
    k k' es ⟨hk, hcoord, htold⟩ (along_of_forall hes k) h
  exact hend.2.2

/-! ## Members and others -/

/-- What a node in state `s` has to know of an operation that the coordinator
handled in `k`. -/
def Taught (k : RegistryCluster) (s : SchedState) : RegistryEvent → Prop
  | .register now registration => KnowsApp k.thread now registration s
  | .triggerOp now request => (k.coord.bucketAppMap request.bucketName).isSome →
      request.primitiveType ≠ .byTime → request.triggerName ≠ [] →
        KnowsTrigger k.thread now request s
  | _ => True

theorem member_told (he : e.IsAddition) (h : k.step e = some k') (hip : ip ∈ k.members) :
    (∀ s, k.Taught s e) ∨ ∃ msg, k'.Told ip msg ∧ coordOf msg = k.thread ∧
      ∀ s, Absorbed msg s → k.Taught s e := by
  cases e with
  | register now registration =>
    obtain ⟨⟨c', outs⟩, hresult, rfl⟩ := Option.map_eq_some_iff.mp h
    obtain ⟨msg, rfl, hannounced⟩ := appRegisterHandler_announced hresult
    have hmember : ip ∈ c'.nodeStatusMap.keys := by
      rw [hannounced.thread.2.2]
      exact hip
    refine Or.inr ⟨msg, Or.inl ?_, hannounced.coord, fun s hs => hannounced.knowsApp hs⟩
    refine List.mem_append_right _ ?_
    rw [updatesFor_broadcast, if_pos hmember]
    exact List.mem_cons_self
  | triggerOp now request =>
    cases happ : k.coord.bucketAppMap request.bucketName with
    | none =>
      refine Or.inl fun s hsome => ?_
      rw [happ] at hsome
      cases hsome
    | some app =>
      obtain ⟨⟨c', msg⟩, response, hresult, rfl⟩ := triggerOp_cases h
      have hmember : ip ∈ c'.nodeStatusMap.keys := by
        rw [(triggerOpResult_sameThread hresult).2.2]
        exact hip
      have hadd : addTrigger now k.coord request = some (c', msg) := by
        have htype : request.operationType = .addTrigger := he
        simpa only [triggerOpResult, htype, happ] using hresult
      refine Or.inr ⟨msg, Or.inl ?_, (triggerOpResult_addition he hresult).2, fun s hs _ =>
        addTrigger_knowsTrigger hadd hs⟩
      refine List.mem_append_right _ ?_
      change msg ∈ updatesFor ip (broadcast c' msg)
      rw [updatesFor_broadcast, if_pos hmember]
      exact List.mem_cons_self
  | bucketOp request => exact Or.inl fun _ => trivial
  | status msg => exact Or.inl fun _ => trivial
  | deliver ip' now => exact Or.inl fun _ => trivial

/-! ## What reaches a node -/

def sends (k : RegistryCluster) (ip : Address) : RegistryEvent → List UpdateCoordMsg
  | .register now registration =>
      (appRegisterHandler now k.coord registration).elim [] fun result => updatesFor ip result.2
  | .triggerOp now request =>
      (triggerOpHandler now k.coord request).elim [] fun result => updatesFor ip result.2
  | .bucketOp request => updatesFor ip (bucketOpHandler k.coord request).2
  | .status _ | .deliver _ _ => []

def sentAlong (ip : Address) : RegistryCluster → List RegistryEvent → List UpdateCoordMsg
  | _, [] => []
  | k, e :: es => k.sends ip e ++ (k.step e).elim [] fun k' => sentAlong ip k' es

theorem step_received (ip : Address) (h : k.step e = some k') :
    (k'.channels ip = k.channels ip ++ k.sends ip e ∧ k'.nodes ip = k.nodes ip) ∨
      (k.sends ip e = [] ∧ ∃ now msg, k.channels ip = msg :: k'.channels ip ∧
        handleUpdate now msg (k.nodes ip) = some (k'.nodes ip)) := by
  cases e with
  | register now registration =>
    obtain ⟨result, hresult, rfl⟩ := Option.map_eq_some_iff.mp h
    simp only [sends, hresult]
    exact Or.inl ⟨rfl, rfl⟩
  | triggerOp now request =>
    obtain ⟨result, hresult, rfl⟩ := Option.map_eq_some_iff.mp h
    simp only [sends, hresult]
    exact Or.inl ⟨rfl, rfl⟩
  | bucketOp request =>
    cases h
    exact Or.inl ⟨rfl, rfl⟩
  | status msg =>
    cases h
    exact Or.inl ⟨(List.append_nil _).symm, rfl⟩
  | deliver ip' now =>
    rcases deliver_cases h with ⟨_, rfl⟩ | ⟨msg, rest, s, hchannel, hs, rfl⟩
    · exact Or.inl ⟨(List.append_nil _).symm, rfl⟩
    · by_cases hip : ip = ip'
      · subst hip
        simp only [Function.update_self]
        exact Or.inr ⟨rfl, now, msg, hchannel, hs⟩
      · simp only [Function.update_of_ne hip]
        exact Or.inl ⟨(List.append_nil _).symm, trivial⟩

theorem step_others (h : k.step e = some k')
    (hk : ∀ ip, ip ∉ k.members → k.channels ip = []) (ip : Address) (hip : ip ∉ k'.members) :
    k'.channels ip = [] := by
  by_cases he : e.IsOperation
  · obtain ⟨hmembers, _, houtside⟩ := operation_members he h
    rw [hmembers] at hip
    rw [houtside ip hip]
    exact hk ip hip
  · cases e with
    | status msg =>
      cases h
      refine hk ip fun hmem => hip (UMap.mem_keys_iff.mpr ?_)
      obtain ⟨status, hstatus⟩ := UMap.mem_keys_iff.mp hmem
      change ∃ v, (k.coord.nodeStatusMap.set msg.ip _).find? ip = some v
      rw [UMap.find?_set]
      split
      · exact ⟨_, rfl⟩
      · exact ⟨status, hstatus⟩
    | deliver ip' now =>
      have hnone : k.channels ip = [] := by
        refine hk ip fun hmem => hip ?_
        rcases deliver_cases h with ⟨_, rfl⟩ | ⟨_, _, _, _, _, rfl⟩
        · exact hmem
        · exact hmem
      refine List.eq_nil_iff_forall_not_mem.mpr fun msg hmsg => ?_
      have hmem := mem_channels_of_deliver h hmsg
      rw [hnone] at hmem
      cases hmem
    | _ => exact absurd trivial he

theorem run_received (ip : Address) (h : run step k es = some k') :
    ∃ handled : List (Stamp × UpdateCoordMsg),
      k.channels ip ++ sentAlong ip k es = handled.map Prod.snd ++ k'.channels ip ∧
        Leads (fun s update => handleUpdate update.1 update.2 s) (k.nodes ip) handled
          (k'.nodes ip) := by
  induction es generalizing k with
  | nil =>
    cases h
    exact ⟨[], List.append_nil _, leads_nil_iff.mpr rfl⟩
  | cons e es ih =>
    obtain ⟨k₁, hstep, hrun⟩ := run_cons_eq_some.mp h
    obtain ⟨handled, hqueue, hleads⟩ := ih hrun
    rw [sentAlong, hstep, Option.elim_some, ← List.append_assoc]
    rcases step_received ip hstep with ⟨hchannel, hnode⟩ | ⟨hnone, now, msg, hchannel, hs⟩
    · rw [← hchannel, ← hnode]
      exact ⟨handled, hqueue, hleads⟩
    · refine ⟨(now, msg) :: handled, ?_, ?_⟩
      · rw [hnone, List.append_nil, hchannel, List.cons_append, hqueue]
        rfl
      · unfold Leads
        rw [List.foldlM_cons, hs]
        exact hleads

/-- Consider any run of registrations, trigger additions, status reports and
deliveries, and one operation in it.  The nodes that had reported their status
before it know of it as soon as they have handled their updates.  The others are not
sent anything, and all that they handle afterwards is sent for later operations. -/
theorem announcements_reach_members {k₀ k₁ k₂ k₃ : RegistryCluster}
    {es₁ es₂ : List RegistryEvent} {e : RegistryEvent} {ip : Address}
    (hstart : ∀ ip, k₀.channels ip = []) (hes₁ : ∀ e ∈ es₁, e.IsAddition)
    (hrun₁ : run step k₀ es₁ = some k₁) (he : e.IsAddition) (hstep : k₁.step e = some k₂)
    (hes₂ : ∀ e ∈ es₂, e.IsAddition) (hrun₂ : run step k₂ es₂ = some k₃)
    (hdelivered : k₃.channels ip = []) :
    (ip ∈ k₁.members → k₁.Taught (k₃.nodes ip) e) ∧
      (ip ∉ k₁.members → e.IsOperation →
        k₁.sends ip e = [] ∧ k₂.channels ip = k₁.channels ip ∧ k₂.nodes ip = k₁.nodes ip ∧
          ∃ handled : List (Stamp × UpdateCoordMsg),
            handled.map Prod.snd = sentAlong ip k₂ es₂ ∧
              Leads (fun s update => handleUpdate update.1 update.2 s) (k₁.nodes ip) handled
                (k₃.nodes ip)) := by
  have hk₁ : k₁.Announces := by
    refine run_announces hes₁ hrun₁ fun ip msg hmsg => ?_
    rw [hstart ip] at hmsg
    cases hmsg
  obtain ⟨hk₂, hthread⟩ := step_announces he hstep hk₁
  constructor
  · intro hip
    rcases member_told he hstep hip with htaught | ⟨msg, htold, hcoord, htaught⟩
    · exact htaught _
    · apply htaught
      rcases run_told hes₂ hrun₂ hk₂ (hcoord.trans hthread.symm) htold with hmem | habsorbed
      · rw [hdelivered] at hmem
        cases hmem
      · exact habsorbed
  · intro hip hoperation
    obtain ⟨_, hnodes, houtside⟩ := operation_members hoperation hstep
    have hchannel := houtside ip hip
    have hnode := congrFun hnodes ip
    have hnone : k₁.sends ip e = [] := by
      rcases step_received ip hstep with ⟨hsent, _⟩ | ⟨hnone, _⟩
      · rw [hchannel] at hsent
        exact List.self_eq_append_right.mp hsent
      · exact hnone
    obtain ⟨handled, hqueue, hleads⟩ := run_received ip hrun₂
    have hempty : k₁.channels ip = [] :=
      @run_invariant _ _ step (fun k => ∀ ip, ip ∉ k.members → k.channels ip = [])
        (fun _ _ => True) (fun _ _ _ hk _ hstep => step_others hstep hk) k₀ k₁ es₁
        (fun ip _ => hstart ip) (along_true k₀ es₁) hrun₁ ip hip
    rw [hdelivered, List.append_nil, hchannel, hempty, List.nil_append] at hqueue
    rw [hnode] at hleads
    exact ⟨hnone, hchannel, hnode, handled, hqueue.symm, hleads⟩

theorem announcements_reach_members_join :
    ∃ k, run step oneNode [.register 0 joinApp, deliverNext] = some k ∧
      KnowsApp oneNode.thread 0 joinApp (k.nodes (Bytes.lit "10.0.0.2")) := by
  have hrun : (run step oneNode [.register 0 joinApp, deliverNext]).map
      (fun k => k.channels (Bytes.lit "10.0.0.2")) = some [] := by decide
  obtain ⟨k₃, hrun, hdelivered⟩ := Option.map_eq_some_iff.mp hrun
  refine ⟨k₃, hrun, ?_⟩
  obtain ⟨k₂, hstep, hrun₂⟩ := run_cons_eq_some.mp hrun
  have hregister : (RegistryEvent.register 0 joinApp).IsAddition := trivial
  have hdeliver : ∀ e ∈ [deliverNext], e.IsAddition := by
    intro e he
    rw [List.mem_singleton.mp he]
    trivial
  exact (announcements_reach_members oneNode_settled.channels
    (List.forall_mem_nil RegistryEvent.IsAddition) (run_nil oneNode) hregister hstep
    hdeliver hrun₂ hdelivered).1 (by decide)

def noNode : RegistryCluster where
  coord := CoordState.new (Bytes.lit "10.0.0.1") 0 1 Nat.one_pos 0
  nodes := fun _ => SchedState.new 0 1
  channels := fun _ => []

/-- A node that reports its status after the registration does not know any function
of the application, although nothing is under way. -/
theorem late_node_not_taught :
    ∃ k, run step noNode [.register 0 joinApp,
        .status { ip := Bytes.lit "10.0.0.2", availExecutors := 1 }] = some k ∧
      Bytes.lit "10.0.0.2" ∈ k.members ∧ (∀ ip, k.channels ip = []) ∧
      ¬ KnowsApp k.thread 0 joinApp (k.nodes (Bytes.lit "10.0.0.2")) := by
  refine ⟨_, rfl, by decide, fun _ => rfl, fun hknows => ?_⟩
  have hfunction := hknows.functions (Bytes.lit "f") (by decide)
  exact absurd hfunction (by decide)

end RegistryCluster

end Pheromone.Cluster
