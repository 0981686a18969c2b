import Pheromone.Cluster.Proofs.Registration
import Pheromone.Cluster.Registry

/-!
# The triggers of the coordinator and of the nodes

Every operation on the coordinator sends the nodes messages that are to take the
old triggers to the new ones.  `Replicable` says for which operations they do.
-/

namespace Pheromone.Cluster

open Lib Common Coordinator Scheduler

variable {ip : Address} {k' : RegistryCluster} {registration : AppRegistration}
  {result : CoordState × List CoordOut}

variable {k : RegistryCluster} {now : TimePoint} {c c' : CoordState} {e : RegistryEvent}
  {msg : UpdateCoordMsg} {request : TriggerOperationRequest}

/-! ## Erasing the first and erasing all -/

theorem eraseP_eq_filter_iff {α : Type} {p : α → Bool} {l : List α} (hany : l.any p = true) :
    l.eraseP p = l.filter (fun a => !p a) ↔ l.countP p = 1 := by
  obtain ⟨a, ha, hpa⟩ := List.any_eq_true.mp hany
  obtain ⟨b, l₁, l₂, hl₁, hb, rfl, herase⟩ := List.exists_of_eraseP ha hpa
  have hfilter : l₁.filter (fun a => !p a) = l₁ :=
    List.filter_eq_self.mpr fun c hc => by simpa using hl₁ c hc
  have hcount : l₁.countP p = 0 := List.countP_eq_zero.mpr hl₁
  rw [herase, List.filter_append, hfilter, List.filter_cons_of_neg (by simp [hb]),
    List.append_cancel_left_eq, List.countP_append, List.countP_cons_of_pos hb, hcount]
  constructor
  · intro heq
    have hnone : l₂.countP p = 0 := by
      rw [List.countP_eq_zero]
      intro c hc
      have hkept := List.filter_eq_self.mp heq.symm c hc
      simpa using hkept
    omega
  · intro hone
    have hnone : l₂.countP p = 0 := by omega
    rw [List.countP_eq_zero] at hnone
    exact (List.filter_eq_self.mpr fun c hc => by simpa using hnone c hc).symm

/-! ## Each operation -/

theorem leads_singleton_iff {view view' : TriggerView} :
    Leads TriggerView.update view [msg] view' ↔ view.update msg = some view' := by
  unfold Leads
  rw [List.foldlM_cons]
  cases view.update msg <;> simp

theorem update_triggerMessage (view : TriggerView) (c : CoordState)
    (request : TriggerOperationRequest) :
    view.update (triggerMessage c request) = some view := by
  simp [TriggerView.update, triggerMessage, signaturesFor]

theorem announced_leads_iff (h : Announced now c registration c' msg) :
    Leads TriggerView.update (coordView c) [msg] (coordView c') ↔
      ∀ d ∈ registration.dependencies, d.type = .direct → d.srcFunctions ≠ [] := by
  have hview : (fun b => coordView c b ++ signaturesFor b msg.triggers) = coordView c' := by
    funext b
    exact (h.view b).symm
  have hdirect : (∀ d ∈ msg.dependencies, d.type = .direct → d.srcFunctions ≠ []) ↔
      ∀ d ∈ registration.dependencies, d.type = .direct → d.srcFunctions ≠ [] := by
    rw [h.dependencies]
    constructor
    · intro hall d hd htype
      exact hall d (List.mem_filter.mpr ⟨hd, by simpa using htype⟩) htype
    · intro hall d hd
      exact hall d (List.mem_filter.mp hd).1
  rw [leads_singleton_iff, ← hdirect]
  unfold TriggerView.update
  rw [h.msgType, hview]
  simp

def addedEntity (request : TriggerOperationRequest) (t : Trigger) : TriggerEntity :=
  { bucketName := request.bucketName
    triggerName := request.triggerName
    triggerOption := request.triggerOption
    primitiveType := request.primitiveType
    primitive := t.dumpPrimitive
    hints := request.hints }

theorem addTrigger_cases (h : addTrigger now c request = some (c', msg)) :
    ∃ pointer, genTriggerPointer now request.primitiveType request.triggerName
        request.primitive = some pointer ∧
      let t := pointer.setTriggerOption (intOfUInt32 request.triggerOption)
      c' = c.pushTrigger request.bucketName t ∧
        t.type = request.primitiveType ∧
        entitySignature (addedEntity request t) =
          (if request.triggerName = [] then none else some t.signature) ∧
        ((t.type = .byTime ∧ msg = triggerMessage c request) ∨
          (t.type ≠ .byTime ∧
            msg = { triggerMessage c request with triggers := [addedEntity request t] })) := by
  obtain ⟨pointer, hpointer, heq⟩ := Option.map_eq_some_iff.mp h
  obtain ⟨htype, hname⟩ := genTriggerPointer_fields hpointer
  rw [Prod.mk.injEq] at heq
  obtain ⟨rfl, rfl⟩ := heq
  refine ⟨pointer, hpointer, rfl, htype, ?_, ?_⟩
  · obtain ⟨t', ht', hsig⟩ := genTriggerPointer_dumpPrimitive 0
      (pointer.setTriggerOption (intOfUInt32 request.triggerOption))
    have hgen : genTriggerPointer 0 request.primitiveType request.triggerName
        (pointer.setTriggerOption (intOfUInt32 request.triggerOption)).dumpPrimitive =
          some t' := by
      rw [← htype, ← hname]
      exact ht'
    unfold entitySignature addedEntity
    simp only
    rw [hgen, Option.map_some]
    exact congrArg (fun sig => if request.triggerName = [] then none else some sig) hsig
  · by_cases htime : (pointer.setTriggerOption (intOfUInt32 request.triggerOption)).type = .byTime
    · exact Or.inl ⟨htime, if_pos htime⟩
    · exact Or.inr ⟨htime, if_neg htime⟩

theorem addTrigger_leads_iff (h : addTrigger now c request = some (c', msg)) :
    Leads TriggerView.update (coordView c) [msg] (coordView c') ↔
      request.primitiveType = .byTime ∨ request.triggerName ≠ [] := by
  obtain ⟨pointer, _, rfl, htype, hentity, hmsg⟩ := addTrigger_cases h
  set t := pointer.setTriggerOption (intOfUInt32 request.triggerOption)
  have hview := coordView_pushTrigger c request.bucketName
  rw [leads_singleton_iff]
  rcases hmsg with ⟨htime, rfl⟩ | ⟨htime, rfl⟩
  · have hsame : coordView (c.pushTrigger request.bucketName t) = coordView c := by
      funext b
      rw [hview b t]
      simp [htime]
    rw [update_triggerMessage, hsame]
    simp [← htype, htime]
  · have hpush : coordView (c.pushTrigger request.bucketName t) = fun b =>
        coordView c b ++ if request.bucketName = b then [t.signature] else [] := by
      funext b
      rw [hview b t]
      simp [htime]
    have hupdate : (coordView c).update
        { triggerMessage c request with triggers := [addedEntity request t] } =
        some fun b => coordView c b ++
          if request.bucketName = b ∧ request.triggerName ≠ [] then [t.signature] else [] := by
      simp only [TriggerView.update, triggerMessage, signaturesFor, List.not_mem_nil,
        false_implies, implies_true, if_true, Option.some.injEq]
      funext b
      by_cases hb : request.bucketName = b
      · rw [List.filter_cons_of_pos (by simp [addedEntity, hb]), List.filter_nil,
          List.filterMap_cons, hentity]
        by_cases hempty : request.triggerName = []
        · simp [hempty]
        · simp [hempty, hb]
      · simp [addedEntity, hb]
    rw [hupdate, hpush, Option.some.injEq]
    constructor
    · intro heq
      right
      intro hempty
      have hbucket := congrFun heq request.bucketName
      simp [hempty] at hbucket
    · rintro (htime' | hne)
      · exact absurd (htype.trans htime') htime
      · simp [hne]

def named (c : CoordState) (bucket : Bucket) (name : Name) : List Trigger :=
  (c.triggersOf bucket).filter fun t => t.triggerName = name

theorem countP_coordView (c : CoordState) (bucket : Bucket) (name : Name) :
    (coordView c bucket).countP (fun t => t.triggerName = name) =
      (named c bucket name).countP fun t => t.type ≠ .byTime := by
  unfold coordView named
  rw [List.countP_map, List.countP_filter, List.countP_filter]
  apply List.countP_congr
  intro t _
  simp only [Function.comp_apply, Bool.and_eq_true, decide_eq_true_eq]
  exact and_comm

theorem coordView_deleteTrigger (c : CoordState) (request : TriggerOperationRequest) :
    coordView (deleteTrigger c request).1 = Function.update (coordView c) request.bucketName
      ((coordView c request.bucketName).filter
        fun t => !(t.triggerName = request.triggerName)) := by
  funext b
  unfold coordView
  rw [triggersOf_deleteTrigger]
  by_cases hb : b = request.bucketName
  · subst hb
    rw [if_pos rfl, Function.update_self, List.filter_map, List.filter_filter,
      List.filter_filter]
    congr 1
    apply List.filter_congr
    intro t _
    rw [Bool.eq_iff_iff]
    simp only [Function.comp_apply, Bool.and_eq_true, decide_eq_true_eq, Bool.not_eq_true',
      decide_eq_false_iff_not]
    exact and_comm
  · rw [if_neg hb, Function.update_of_ne hb]

theorem deleteTrigger_leads_iff (c : CoordState) (request : TriggerOperationRequest) :
    Leads TriggerView.update (coordView c) [(deleteTrigger c request).2]
        (coordView (deleteTrigger c request).1) ↔
      named c request.bucketName request.triggerName = [] ∨
        (named c request.bucketName request.triggerName).countP
          (fun t => t.type ≠ .byTime) = 1 := by
  have hlength : ((c.triggersOf request.bucketName).filter
        fun t => t.triggerName ≠ request.triggerName).length <
      (c.triggersOf request.bucketName).length ↔
      named c request.bucketName request.triggerName ≠ [] := by
    unfold named
    rw [List.length_filter_lt_length_iff_exists, ne_eq, List.filter_eq_nil_iff]
    push Not
    simp
  have hcount := countP_coordView c request.bucketName request.triggerName
  rw [leads_singleton_iff, coordView_deleteTrigger]
  by_cases hnamed : named c request.bucketName request.triggerName = []
  · -- nothing was found, so the message changes nothing
    have hmsg : (deleteTrigger c request).2 = triggerMessage c request := by
      unfold deleteTrigger
      simp only
      rw [if_neg (fun h => hlength.mp h hnamed)]
    have hnone : ∀ t ∈ coordView c request.bucketName, ¬ t.triggerName = request.triggerName := by
      rw [hnamed, List.countP_nil, List.countP_eq_zero] at hcount
      simpa using hcount
    have hkept : (coordView c request.bucketName).filter
        (fun t => !(t.triggerName = request.triggerName)) = coordView c request.bucketName := by
      rw [List.filter_eq_self]
      intro t ht
      simpa using hnone t ht
    rw [hmsg, update_triggerMessage, hkept, Function.update_eq_self]
    simp [hnamed]
  · have hmsg : (coordView c).update (deleteTrigger c request).2 =
        (coordView c).erase request.bucketName request.triggerName := by
      unfold deleteTrigger
      simp only
      rw [if_pos (hlength.mpr hnamed)]
      simp only [TriggerView.update, List.foldlM_cons, List.foldlM_nil]
      cases (coordView c).erase request.bucketName request.triggerName <;> rfl
    rw [hmsg, ← hcount]
    unfold TriggerView.erase
    by_cases hany : (coordView c request.bucketName).any
        (fun t => t.triggerName = request.triggerName) = true
    · rw [if_pos hany, Option.some.injEq, ← eraseP_eq_filter_iff hany]
      constructor
      · intro heq
        right
        simpa using congrFun heq request.bucketName
      · rintro (hnil | heq)
        · exact absurd hnil hnamed
        · rw [heq]
    · rw [if_neg hany]
      have hzero : (coordView c request.bucketName).countP
          (fun t => t.triggerName = request.triggerName) = 0 := by
        rw [List.countP_eq_zero]
        intro t ht hname
        exact hany (List.any_eq_true.mpr ⟨t, ht, hname⟩)
      simp [hzero, hnamed]

theorem coordView_bucketOp (c : CoordState) (request : BucketOperationRequest) :
    coordView (bucketOpHandler c request).1 =
      if request.operationType = .deleteBucket ∧ (c.bucketAppMap request.bucketName).isSome then
        Function.update (coordView c) request.bucketName []
      else coordView c := by
  unfold bucketOpHandler
  simp only
  split
  next htype =>
    rw [if_neg (by simp [htype])]
    split <;> rfl
  next htype =>
    split
    next happ => rw [if_neg (by simp [happ])]
    next app happ =>
      rw [if_pos ⟨htype, by rw [happ]; rfl⟩]
      funext b
      unfold coordView CoordState.triggersOf Map.getD
      by_cases hb : b = request.bucketName
      · subst hb
        simp
      · simp [hb]
  next n htype => rw [if_neg (by simp [htype])]

theorem bucketOp_leads_iff (c : CoordState) (request : BucketOperationRequest) :
    Leads TriggerView.update (coordView c) [] (coordView (bucketOpHandler c request).1) ↔
      (request.operationType = .deleteBucket → (c.bucketAppMap request.bucketName).isSome →
        ∀ t ∈ c.triggersOf request.bucketName, t.type = .byTime) := by
  rw [leads_nil_iff, coordView_bucketOp]
  split
  next hdelete =>
    constructor
    · intro heq _ _ t ht
      have hnil : coordView c request.bucketName = [] := by
        rw [heq, Function.update_self]
      unfold coordView at hnil
      rw [List.map_eq_nil_iff, List.filter_eq_nil_iff] at hnil
      simpa using hnil t ht
    · intro hall
      have hnil : coordView c request.bucketName = [] := by
        unfold coordView
        rw [List.map_eq_nil_iff, List.filter_eq_nil_iff]
        intro t ht
        simpa using hall hdelete.1 hdelete.2 t ht
      rw [← hnil, Function.update_eq_self]
  next hother =>
    constructor
    · intro _ htype hsome
      exact absurd ⟨htype, hsome⟩ hother
    · intro _
      rfl

def triggerOpResult (now : TimePoint) (c : CoordState) (request : TriggerOperationRequest) :
    Option (CoordState × UpdateCoordMsg) :=
  match request.operationType, c.bucketAppMap request.bucketName with
  | .addTrigger, some _ => addTrigger now c request
  | .deleteTrigger, some _ => some (deleteTrigger c request)
  | _, _ => some (c, triggerMessage c request)

theorem triggerOpHandler_eq (now : TimePoint) (c : CoordState)
    (request : TriggerOperationRequest) :
    ∃ response, triggerOpHandler now c request =
      (triggerOpResult now c request).map fun result =>
        (result.1, .triggerResponse request.responseAddress response ::
          broadcast result.1 result.2) := by
  unfold triggerOpHandler triggerOpResult
  simp only
  cases request.operationType with
  | addTrigger =>
    cases c.bucketAppMap request.bucketName with
    | none => exact ⟨_, rfl⟩
    | some app => exact ⟨_, rfl⟩
  | deleteTrigger =>
    cases c.bucketAppMap request.bucketName with
    | none => exact ⟨_, rfl⟩
    | some app => exact ⟨_, rfl⟩
  | unrecognized n => exact ⟨_, rfl⟩

/-- The operations on triggers that a scheduler repeats. -/
def ReplicableTriggerOp (c : CoordState) (request : TriggerOperationRequest) : Prop :=
  (c.bucketAppMap request.bucketName).isSome →
    match request.operationType with
    | .addTrigger => (∀ n, request.primitiveType ≠ .unrecognized n) ∧
        (request.primitiveType = .byTime ∨ request.triggerName ≠ [])
    | .deleteTrigger => named c request.bucketName request.triggerName = [] ∨
        (named c request.bucketName request.triggerName).countP (fun t => t.type ≠ .byTime) = 1
    | .unrecognized _ => True

theorem triggerOpResult_leads_iff (now : TimePoint) (c : CoordState)
    (request : TriggerOperationRequest) :
    (∃ result, triggerOpResult now c request = some result ∧
        Leads TriggerView.update (coordView c) [result.2] (coordView result.1)) ↔
      ReplicableTriggerOp c request := by
  have hnothing : Leads TriggerView.update (coordView c) [triggerMessage c request]
      (coordView c) := leads_singleton_iff.mpr (update_triggerMessage _ c request)
  unfold triggerOpResult ReplicableTriggerOp
  cases happ : c.bucketAppMap request.bucketName with
  | none =>
    cases request.operationType <;> simp [hnothing]
  | some app =>
    cases htype : request.operationType with
    | addTrigger =>
      simp only [Option.isSome_some, true_implies]
      constructor
      · rintro ⟨⟨c', msg⟩, hadd, hleads⟩
        refine ⟨?_, (addTrigger_leads_iff hadd).mp hleads⟩
        obtain ⟨pointer, hpointer, _⟩ := Option.map_eq_some_iff.mp hadd
        rw [← genTriggerPointer_isSome_iff now request.primitiveType request.triggerName
          request.primitive, hpointer]
        rfl
      · rintro ⟨hknown, hname⟩
        obtain ⟨pointer, hpointer⟩ := Option.isSome_iff_exists.mp
          ((genTriggerPointer_isSome_iff now request.primitiveType request.triggerName
            request.primitive).mpr hknown)
        have hadd : (addTrigger now c request).isSome := by
          unfold addTrigger
          rw [hpointer]
          rfl
        obtain ⟨⟨c', msg⟩, hadd⟩ := Option.isSome_iff_exists.mp hadd
        exact ⟨(c', msg), hadd, (addTrigger_leads_iff hadd).mpr hname⟩
    | deleteTrigger =>
      simp only [Option.some.injEq, exists_eq_left', Option.isSome_some, true_implies]
      exact deleteTrigger_leads_iff c request
    | unrecognized n => simp [hnothing]

theorem triggerOpResult_sameThread {result : CoordState × UpdateCoordMsg}
    (h : triggerOpResult now c request = some result) : SameThread c result.1 := by
  unfold triggerOpResult at h
  split at h
  · obtain ⟨pointer, _, rfl⟩ := Option.map_eq_some_iff.mp h
    exact ⟨rfl, rfl, rfl⟩
  · cases h
    exact ⟨rfl, rfl, rfl⟩
  · cases h
    exact ⟨rfl, rfl, rfl⟩

theorem bucketOpHandler_updates (c : CoordState) (request : BucketOperationRequest) :
    SameThread c (bucketOpHandler c request).1 ∧
      ∀ ip, updatesFor ip (bucketOpHandler c request).2 = [] := by
  unfold bucketOpHandler
  simp only
  split
  · split <;> exact ⟨⟨rfl, rfl, rfl⟩, fun _ => rfl⟩
  · split <;> exact ⟨⟨rfl, rfl, rfl⟩, fun _ => rfl⟩
  · exact ⟨⟨rfl, rfl, rfl⟩, fun _ => rfl⟩

/-! ## The cluster -/

def RegistryEvent.IsOperation : RegistryEvent → Prop
  | .register _ _ | .triggerOp _ _ | .bucketOp _ => True
  | .status _ | .deliver _ _ => False

namespace RegistryCluster

/-- The messages that a step sends to `ip` take the old triggers of the
coordinator to the new ones. -/
def Follows (k k' : RegistryCluster) (ip : Address) : Prop :=
  ∃ messages, k'.channels ip = k.channels ip ++ messages ∧
    Leads TriggerView.update (coordView k.coord) messages (coordView k'.coord)

theorem follows_handled_iff (k : RegistryCluster) (result : CoordState × List CoordOut)
    (ip : Address) :
    Follows k (k.handled result) ip ↔
      Leads TriggerView.update (coordView k.coord) (updatesFor ip result.2)
        (coordView result.1) := by
  constructor
  · rintro ⟨messages, hchannel, hleads⟩
    have hmessages : updatesFor ip result.2 = messages := List.append_cancel_left hchannel
    rw [hmessages]
    exact hleads
  · intro hleads
    exact ⟨updatesFor ip result.2, rfl, hleads⟩

/-- An operation whose effect on the triggers every node can repeat. -/
def Replicable (k : RegistryCluster) : RegistryEvent → Prop
  | .register _ registration =>
      (∀ d ∈ registration.dependencies, d.type ≠ .direct → d.tgtFunctions ≠ [] ∧ Described d) ∧
        ∀ d ∈ registration.dependencies, d.type = .direct → d.srcFunctions ≠ []
  | .triggerOp _ request => ReplicableTriggerOp k.coord request
  | .bucketOp request => request.operationType = .deleteBucket →
      (k.coord.bucketAppMap request.bucketName).isSome →
        ∀ t ∈ k.coord.triggersOf request.bucketName, t.type = .byTime
  | .status _ | .deliver _ _ => True

theorem register_follows (h : appRegisterHandler now k.coord registration = some result)
    (hip : ip ∈ k.members) :
    Follows k (k.handled result) ip ↔
      ∀ d ∈ registration.dependencies, d.type = .direct → d.srcFunctions ≠ [] := by
  obtain ⟨msg, houts, hannounced⟩ := appRegisterHandler_announced h
  have hmember : ip ∈ result.1.nodeStatusMap.keys := by
    rw [hannounced.thread.2.2]
    exact hip
  rw [follows_handled_iff, houts, updatesFor_broadcast, if_pos hmember]
  exact announced_leads_iff hannounced

theorem step_follows_iff (he : e.IsOperation) (hip : ip ∈ k.members) :
    (∃ k', k.step e = some k' ∧ Follows k k' ip) ↔ k.Replicable e := by
  cases e with
  | register now registration =>
    constructor
    · rintro ⟨k', hstep, hfollows⟩
      obtain ⟨result, hresult, rfl⟩ := Option.map_eq_some_iff.mp hstep
      refine ⟨(appRegisterHandler_isSome_iff now k.coord registration).mp (by rw [hresult]; rfl),
        (register_follows hresult hip).mp hfollows⟩
    · rintro ⟨hparses, hdirect⟩
      obtain ⟨result, hresult⟩ := Option.isSome_iff_exists.mp
        ((appRegisterHandler_isSome_iff now k.coord registration).mpr hparses)
      refine ⟨k.handled result, ?_, (register_follows hresult hip).mpr hdirect⟩
      simp only [step, hresult, Option.map_some]
  | triggerOp now request =>
    obtain ⟨response, hhandler⟩ := triggerOpHandler_eq now k.coord request
    have hupdates : ∀ result, triggerOpResult now k.coord request = some result →
        updatesFor ip (.triggerResponse request.responseAddress response ::
          broadcast result.1 result.2) = [result.2] := by
      intro result hresult
      have hmember : ip ∈ result.1.nodeStatusMap.keys := by
        rw [(triggerOpResult_sameThread hresult).2.2]
        exact hip
      exact (updatesFor_broadcast ip result.1 result.2).trans (if_pos hmember)
    simp only [step, hhandler, Option.map_map, Option.map_eq_some_iff, Function.comp_apply]
    change _ ↔ ReplicableTriggerOp k.coord request
    rw [← triggerOpResult_leads_iff now]
    constructor
    · rintro ⟨k', ⟨result, hresult, rfl⟩, hfollows⟩
      rw [follows_handled_iff, hupdates result hresult] at hfollows
      exact ⟨result, hresult, hfollows⟩
    · rintro ⟨result, hresult, hleads⟩
      refine ⟨_, ⟨result, hresult, rfl⟩, ?_⟩
      rw [follows_handled_iff, hupdates result hresult]
      exact hleads
  | bucketOp request =>
    simp only [step, Option.some.injEq, exists_eq_left']
    rw [follows_handled_iff, (bucketOpHandler_updates k.coord request).2 ip]
    exact bucketOp_leads_iff k.coord request
  | status msg => exact he.elim
  | deliver ip now => exact he.elim

/-- The nodes stay the same: a status report comes from one that reported
before. -/
def FixedMembers (k : RegistryCluster) : RegistryEvent → Prop
  | .status msg => msg.ip ∈ k.members
  | _ => True

theorem triggerOp_cases {request : TriggerOperationRequest}
    (h : k.step (.triggerOp now request) = some k') :
    ∃ result response, triggerOpResult now k.coord request = some result ∧
      k' = k.handled (result.1, .triggerResponse request.responseAddress response ::
        broadcast result.1 result.2) := by
  obtain ⟨response, hhandler⟩ := triggerOpHandler_eq now k.coord request
  simp only [step, hhandler, Option.map_map, Option.map_eq_some_iff, Function.comp_apply] at h
  obtain ⟨result, hresult, rfl⟩ := h
  exact ⟨result, response, hresult, rfl⟩

theorem handled_members (h : SameThread k.coord result.1) :
    (k.handled result).members = k.members :=
  congrArg UMap.keys h.2.2

theorem operation_members (he : e.IsOperation) (h : k.step e = some k') :
    k'.members = k.members ∧ k'.nodes = k.nodes ∧
      ∀ ip, ip ∉ k.members → k'.channels ip = k.channels ip := by
  have houtside : ∀ {c' : CoordState} {outs : List CoordOut} {msg : UpdateCoordMsg},
      SameThread k.coord c' → (∀ ip, updatesFor ip outs = updatesFor ip (broadcast c' msg)) →
      ∀ ip, ip ∉ k.members → (k.handled (c', outs)).channels ip = k.channels ip := by
    intro c' outs msg hthread houts ip hip
    have hnot : ip ∉ c'.nodeStatusMap.keys := by
      rw [hthread.2.2]
      exact hip
    change k.channels ip ++ updatesFor ip outs = k.channels ip
    rw [houts ip, updatesFor_broadcast, if_neg hnot, List.append_nil]
  cases e with
  | register now registration =>
    obtain ⟨⟨c', outs⟩, hresult, rfl⟩ := Option.map_eq_some_iff.mp h
    obtain ⟨msg, rfl, hannounced⟩ := appRegisterHandler_announced hresult
    exact ⟨handled_members hannounced.thread, rfl,
      houtside hannounced.thread fun _ => rfl⟩
  | triggerOp now request =>
    obtain ⟨result, response, hresult, rfl⟩ := triggerOp_cases h
    have hthread := triggerOpResult_sameThread hresult
    exact ⟨handled_members hthread, rfl, houtside hthread fun _ => rfl⟩
  | bucketOp request =>
    cases h
    obtain ⟨hthread, hnone⟩ := bucketOpHandler_updates k.coord request
    refine ⟨handled_members hthread, rfl, fun ip _ => ?_⟩
    change k.channels ip ++ updatesFor ip _ = k.channels ip
    rw [hnone ip, List.append_nil]
  | status msg => exact he.elim
  | deliver ip now => exact he.elim

structure Led (k : RegistryCluster) : Prop where
  members : ∀ ip ∈ k.members,
    Leads TriggerView.update (k.nodes ip).signatures (k.channels ip) (coordView k.coord)
  others : ∀ ip, ip ∉ k.members → k.channels ip = []

theorem Led.operation (hk : k.Led) (he : e.IsOperation) (hreplicable : k.Replicable e) :
    ∃ k', k.step e = some k' ∧ k'.Led := by
  -- the handler is defined whether or not there is a member to see it
  have hsome : (k.step e).isSome := by
    cases e with
    | register now registration =>
      simp only [step, Option.isSome_map]
      exact (appRegisterHandler_isSome_iff now k.coord registration).mpr hreplicable.1
    | triggerOp now request =>
      obtain ⟨response, hhandler⟩ := triggerOpHandler_eq now k.coord request
      obtain ⟨result, hresult, _⟩ :=
        (triggerOpResult_leads_iff now k.coord request).mpr hreplicable
      simp [step, hhandler, hresult]
    | bucketOp request => rfl
    | status msg => exact he.elim
    | deliver ip now => exact he.elim
  obtain ⟨k', hstep⟩ := Option.isSome_iff_exists.mp hsome
  obtain ⟨hmembers, hnodes, houtside⟩ := operation_members he hstep
  refine ⟨k', hstep, fun ip hip => ?_, fun ip hip => ?_⟩
  · rw [hmembers] at hip
    obtain ⟨k'', hstep', messages, hchannel, hleads⟩ :=
      (step_follows_iff he hip).mpr hreplicable
    rw [hstep] at hstep'
    cases hstep'
    rw [hnodes, hchannel]
    exact (hk.members ip hip).send hleads
  · rw [hmembers] at hip
    rw [houtside ip hip]
    exact hk.others ip hip

theorem Led.status {msg : UpdateStatusMessage} (hk : k.Led) (hfixed : msg.ip ∈ k.members) :
    ({ k with coord := updateStatus k.coord msg } : RegistryCluster).Led := by
  have hmembers : ({ k with coord := updateStatus k.coord msg } : RegistryCluster).members =
      k.members := UMap.keys_set_of_mem _ hfixed
  refine ⟨fun ip hip => ?_, fun ip hip => ?_⟩
  · rw [hmembers] at hip
    exact hk.members ip hip
  · rw [hmembers] at hip
    exact hk.others ip hip

theorem Led.deliver (hk : k.Led) (ip : Address) (now : Stamp) :
    ∃ k', k.step (.deliver ip now) = some k' ∧ k'.Led := by
  simp only [step]
  cases hchannel : k.channels ip with
  | nil => exact ⟨k, rfl, hk⟩
  | cons msg rest =>
    have hip : ip ∈ k.members := by
      by_contra hnot
      rw [hk.others ip hnot] at hchannel
      cases hchannel
    have hleads := hk.members ip hip
    rw [hchannel] at hleads
    obtain ⟨view, hview, hrest⟩ := hleads.deliver
    rw [← handleUpdate_signatures now, Option.map_eq_some_iff] at hview
    obtain ⟨s, hs, rfl⟩ := hview
    simp only [hs, Option.map_some]
    refine ⟨_, rfl, fun ip' hip' => ?_, fun ip' hip' => ?_⟩
    · by_cases heq : ip' = ip
      · subst heq
        simp only [Function.update_self]
        exact hrest
      · simp only [Function.update_of_ne heq]
        exact hk.members ip' hip'
    · have hne : ip' ≠ ip := fun heq => hip' (heq ▸ hip)
      simp only [Function.update_of_ne hne]
      exact hk.others ip' hip'

theorem Led.step (hk : k.Led) (hfixed : k.FixedMembers e) (hreplicable : k.Replicable e) :
    ∃ k', k.step e = some k' ∧ k'.Led := by
  cases e with
  | register now registration => exact hk.operation trivial hreplicable
  | triggerOp now request => exact hk.operation trivial hreplicable
  | bucketOp request => exact hk.operation trivial hreplicable
  | status msg => exact ⟨_, rfl, hk.status hfixed⟩
  | deliver ip now => exact hk.deliver ip now

/-! ## Agreement -/

structure Settled (k : RegistryCluster) : Prop where
  channels : ∀ ip, k.channels ip = []
  agree : ∀ ip ∈ k.members, ∀ bucket, (k.nodes ip).signatures bucket = coordView k.coord bucket

/-- A node that has handled every update has the triggers of the coordinator, apart
from the periodic ones. -/
def Agrees (k : RegistryCluster) : Prop :=
  ∀ ip ∈ k.members, k.channels ip = [] →
    ∀ bucket, (k.nodes ip).signatures bucket = coordView k.coord bucket

theorem Settled.led (hk : k.Settled) : k.Led := by
  refine ⟨fun ip hip => ?_, fun ip _ => hk.channels ip⟩
  rw [hk.channels ip, leads_nil_iff]
  funext bucket
  exact hk.agree ip hip bucket

theorem Led.agrees (hk : k.Led) : k.Agrees := by
  intro ip hip hempty bucket
  have hleads := hk.members ip hip
  rw [hempty, leads_nil_iff] at hleads
  rw [hleads]

/-- Whatever replicable operations the coordinator handles, and however they
interleave with the deliveries: every step is defined, and in every state a node
without undelivered updates agrees with the coordinator. -/
theorem triggers_agree_along_replicable {k : RegistryCluster} {es : List RegistryEvent}
    (hk : k.Settled)
    (hes : Along step (fun k e => k.FixedMembers e ∧ k.Replicable e) k es) :
    (run step k es).isSome ∧ Throughout step Agrees k es := by
  constructor
  · exact run_isSome_of_along (fun k e hled hok => hled.step hok.1 hok.2) hk.led hes
  · refine throughout_of_along (fun k hled => Led.agrees hled) ?_ hk.led hes
    intro k e k' hled hok hstep
    obtain ⟨k'', hstep', hled'⟩ := hled.step hok.1 hok.2
    rw [hstep] at hstep'
    cases hstep'
    exact hled'

/-! ## Runs on one node -/

def oneNode : RegistryCluster where
  coord := updateStatus (CoordState.new (Bytes.lit "10.0.0.1") 0 1 Nat.one_pos 0)
    { ip := Bytes.lit "10.0.0.2", availExecutors := 1 }
  nodes := fun _ => SchedState.new 0 1
  channels := fun _ => []

theorem oneNode_settled : oneNode.Settled := ⟨fun _ => rfl, fun _ _ _ => rfl⟩

def joinApp : AppRegistration where
  appName := Bytes.lit "app"
  functions := [Bytes.lit "f", Bytes.lit "t"]
  dependencies := [
    { type := .manyToOne, srcFunctions := [Bytes.lit "f"], tgtFunctions := [Bytes.lit "t"] }]

def addRequest (name : Name) (type : PrimitiveType) : TriggerOperationRequest :=
  { operationType := .addTrigger, appName := Bytes.lit "app", bucketName := Bytes.lit "b_t"
    triggerName := name, primitiveType := type }

def deleteRequest (name : Name) : TriggerOperationRequest :=
  { operationType := .deleteTrigger, appName := Bytes.lit "app", bucketName := Bytes.lit "b_t"
    triggerName := name }

def deliverNext : RegistryEvent := .deliver (Bytes.lit "10.0.0.2") 0

theorem triggers_agree_along_replicable_join :
    oneNode.Settled ∧
      Throughout step Agrees oneNode
        [.register 0 joinApp, .triggerOp 0 (addRequest (Bytes.lit "x") .immediate),
          deliverNext, deliverNext] := by
  refine ⟨oneNode_settled, (triggers_agree_along_replicable oneNode_settled ?_).2⟩
  refine ⟨⟨trivial, by simp [joinApp, Described], by decide⟩,
    fun k _ => ⟨⟨trivial, fun _ => ?_⟩, fun _ _ => ?_⟩⟩
  · exact ⟨by simp [addRequest], by decide⟩
  · exact ⟨⟨trivial, trivial⟩, fun _ _ => ⟨⟨trivial, trivial⟩, fun _ _ => trivial⟩⟩

def outcome (es : List RegistryEvent) : Option (Bool × List Name × List Name) :=
  (run step oneNode es).map fun k =>
    (Bytes.lit "10.0.0.2" ∈ k.members ∧ k.channels (Bytes.lit "10.0.0.2") = [],
      ((k.nodes (Bytes.lit "10.0.0.2")).signatures (Bytes.lit "b_t")).map
        TriggerSignature.triggerName,
      (coordView k.coord (Bytes.lit "b_t")).map TriggerSignature.triggerName)

theorem not_agrees_of_outcome {es : List RegistryEvent} (names names' : List Name)
    (h : outcome es = some (true, names, names')) (hne : names ≠ names') :
    ∃ k, run step oneNode es = some k ∧ ¬ k.Agrees := by
  obtain ⟨k, hrun, heq⟩ := Option.map_eq_some_iff.mp h
  simp only [Prod.mk.injEq, decide_eq_true_eq] at heq
  obtain ⟨⟨hmember, hempty⟩, rfl, rfl⟩ := heq
  refine ⟨k, hrun, fun hagrees => hne ?_⟩
  rw [hagrees _ hmember hempty]

/-- Three ways to lose the agreement: deleting a name that two triggers have leaves
one of them on the node, deleting a bucket leaves all of them there, and deleting a
periodic trigger makes the node search past the end of its list. -/
theorem deletions_not_replicated :
    oneNode.Settled ∧
      (∃ k, run step oneNode
          [.register 0 joinApp,
            .triggerOp 0 (addRequest (Bytes.lit "x") .immediate),
            .triggerOp 0 (addRequest (Bytes.lit "x") .immediate),
            .triggerOp 0 (deleteRequest (Bytes.lit "x")),
            deliverNext, deliverNext, deliverNext, deliverNext] = some k ∧ ¬ k.Agrees) ∧
      (∃ k, run step oneNode
          [.register 0 joinApp,
            .bucketOp { operationType := .deleteBucket, appName := Bytes.lit "app"
                        bucketName := Bytes.lit "b_t" },
            deliverNext] = some k ∧ ¬ k.Agrees) ∧
      outcome [.register 0 joinApp,
          .triggerOp 0 (addRequest (Bytes.lit "x") .byTime),
          .triggerOp 0 (deleteRequest (Bytes.lit "x")),
          deliverNext, deliverNext, deliverNext] = none := by
  refine ⟨oneNode_settled, ?_, ?_, by decide⟩
  · exact not_agrees_of_outcome [Bytes.lit "t_1_t", Bytes.lit "x"] [Bytes.lit "t_1_t"]
      (by decide) (by decide)
  · exact not_agrees_of_outcome [Bytes.lit "t_1_t"] [] (by decide) (by decide)

end RegistryCluster

end Pheromone.Cluster
